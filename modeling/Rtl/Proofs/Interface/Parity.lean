import Mathlib.Algebra.Group.Nat.Even
import Rtl.Proofs.Interface.Standing
import Rtl.Proofs.Interface.Steps
import Rtl.Proofs.Interface.Unfolding

namespace Rtl

open Forest

namespace Forest

variable {α β γ : Type}

-- The leaves of an entry and what is inside it: the entry itself if that is nothing.
def leavesAt (path : List String) (item : α) (inner : Forest α) : List (List String × α) :=
  match inner with
  | nil => [(path, item)]
  | inner => inner.leaves path

theorem leaves_cons (path : List String) (name : String) (item : α) (inner rest : Forest α) :
    (cons name item inner rest).leaves path =
      leavesAt (path ++ [name]) item inner ++ rest.leaves path := by
  cases inner with
  | nil | cons => rfl

theorem mem_leavesAt_of_mem_leaves {path : List String} {inner : Forest α}
    {leaf : List String × α} (h : leaf ∈ inner.leaves path) (item : α) :
    leaf ∈ leavesAt path item inner := by
  cases inner with
  | nil => cases h
  | cons => exact h

theorem mem_items_of_mem_leaves {path : List String} {forest : Forest α} {leaf : List String × α}
    (h : leaf ∈ forest.leaves path) : leaf.2 ∈ forest.items := by
  induction forest generalizing path with
  | nil => cases h
  | cons name item inner rest ihi ihr =>
      have hrest (hmem : leaf ∈ rest.leaves path) : leaf.2 ∈ (cons name item inner rest).items :=
        List.mem_cons_of_mem _ (List.mem_append_right _ (ihr hmem))
      cases inner with
      | nil =>
          rcases List.mem_cons.mp h with rfl | hmem
          · exact List.mem_cons_self
          · exact hrest hmem
      | cons first below inside beside =>
          rcases List.mem_append.mp h with hmem | hmem
          · exact List.mem_cons_of_mem _ (List.mem_append_left _ (ihi hmem))
          · exact hrest hmem

theorem mem_items_of_mem_leavesAt {path : List String} {item : α} {inner : Forest α}
    {leaf : List String × α} (h : leaf ∈ leavesAt path item inner) :
    leaf.2 = item ∨ leaf.2 ∈ inner.items := by
  cases inner with
  | nil => exact .inl (congrArg Prod.snd (List.mem_singleton.mp h))
  | cons name first below beside => exact .inr (mem_items_of_mem_leaves h)

theorem mem_items_of_mem_spot_leaves {forest : Forest α} {index : Nat} {spot : Spot α}
    {leaf : List String × α} (h : forest.spot? index = some spot) (hleaf : leaf ∈ spot.leaves) :
    leaf.2 ∈ forest.items := by
  obtain ⟨hitem, hinner⟩ := mem_items_of_spot? h
  rcases mem_items_of_mem_leavesAt hleaf with heq | hmem
  · exact heq ▸ hitem
  · exact all_iff_forall_mem_items.mp hinner _ hmem

theorem nodup_leavesAt {inner : Forest α} (h : inner.Distinct) (path : List String) (item : α) :
    ((leavesAt path item inner).map (·.1)).Nodup := by
  cases inner with
  | nil => exact List.nodup_singleton _
  | cons => exact nodup_leaves h path

theorem leavesAt_map (f : α → β) (path : List String) (item : α) (inner : Forest α) :
    leavesAt path (f item) (inner.map f) =
      (leavesAt path item inner).map fun (path, item) => (path, f item) := by
  cases inner with
  | nil => rfl
  | cons name first below beside => exact leaves_map f path (cons name first below beside)

-- Trees that are alike have their leaves at the same places.
theorem paths_eq_of_map {f : α → γ} {g : β → γ} {inner : Forest α} {other : Forest β}
    (h : inner.map f = other.map g) (path : List String) (item : α) (held : β) :
    (leavesAt path item inner).map (·.1) = (leavesAt path held other).map (·.1) := by
  have hunit : inner.map (fun _ => ()) = other.map fun _ => () := by
    simpa only [map_map] using congrArg (map fun _ => ()) h
  have hleaves := congrArg (fun tree => (leavesAt path () tree).map (·.1)) hunit
  simpa only [leavesAt_map (fun _ => ()) path item, leavesAt_map (fun _ => ()) path held,
    List.map_map, Function.comp_def] using hleaves

theorem length_leavesAt_of_map {f : α → γ} {g : β → γ} {inner : Forest α} {other : Forest β}
    (h : inner.map f = other.map g) (path : List String) (item : α) (held : β) :
    (leavesAt path item inner).length = (leavesAt path held other).length := by
  simpa only [List.length_map] using congrArg List.length (paths_eq_of_map h path item held)

-- For each entry the number of entries with master direction in on the way to it,
-- itself among them, and those that were met before.
def turns (before : Nat) : Forest Shape → Forest Nat
  | nil => nil
  | cons name shape inner rest =>
      let here := if shape.masterDirection = .input then before + 1 else before
      cons name here (inner.turns here) (rest.turns before)

theorem turns_succ (before : Nat) (shapes : Forest Shape) :
    shapes.turns (before + 1) = (shapes.turns before).map (· + 1) := by
  induction shapes generalizing before with
  | nil => rfl
  | cons name shape inner rest ihi ihr =>
      simp only [turns, map, ihr, ← ihi]
      split <;> rfl

theorem map_turns (before : Nat) (shapes : Forest Shape) :
    (shapes.turns before).map (fun _ => ()) = shapes.map fun _ => () := by
  induction shapes generalizing before with
  | nil => rfl
  | cons name shape inner rest ihi ihr => simp only [turns, map, ihi, ihr]

end Forest

namespace Template

-- The paths to the leaves, each with the number of members on it that have master
-- direction in.
def routes (template : Template) : List (List String × Nat) :=
  leavesAt [] 0 (template.members.turns 0)

-- What a registry makes of a class, whatever was made of other classes before.
def Built (template : Template) : Prop :=
  ∃ history cls, template = ((Registry.empty.buildAll history).build cls).1

theorem Built.distinct {template : Template} (h : template.Built) : template.members.Distinct := by
  obtain ⟨history, cls, rfl⟩ := h
  exact (Registry.distinct_build _ cls (Registry.distinct_buildAll history)).1

-- An internal instance of the template in which all sides are as they were made.
structure Unturned (template : Template) (spot : Spot NodeState) : Prop where
  above : spot.above = []
  root : spot.item.bearing = ((.output, false), .slave)
  members : spot.inner.map NodeState.bearing =
    template.members.map fun shape => ((shape.masterDirection, false), .slave)

end Template

namespace Workbench

variable {bench next : Workbench} {template : Template} {id : NodeId}

-- An internal instance that was not matched or turned since it was made, as a
-- whole or in part.
inductive Fresh (template : Template) (id : NodeId) : Workbench → Prop
  | made {bench next : Workbench} {source : Option NodeId} {destinations : List NodeId}
      (hid : id = ⟨bench.synth.size⟩)
      (hnext : bench.obey? (.interface (.instantiate template false source destinations)) =
        some next) : Fresh template id next
  | kept {bench next : Workbench} {command : Command} (h : Fresh template id bench)
      (hcommand : ∀ top, command.turns = some top → ¬ bench.synth.Covers id top)
      (hnext : bench.obey? command = some next) : Fresh template id next

-- Whatever else is done, the sides in it are as they were made.
theorem Fresh.exists_unturned (h : Fresh template id bench) :
    ∃ spot, bench.synth.node? id = some spot ∧ template.Unturned spot := by
  induction h with
  | made hid hnext =>
      obtain rfl := Option.some.inj hnext
      subst hid
      exact ⟨_, Synthesizer.node?_instantiate .., rfl, rfl, map_map ..⟩
  | @kept bench next command h hcommand hnext ih =>
      obtain ⟨spot, hspot, hunturned⟩ := ih
      cases changes_of_obey? hnext with
      | adds added hnodes _ _ =>
          refine ⟨spot, ?_, hunturned⟩
          rw [Synthesizer.node?, hnodes]
          exact spot?_append_of_spot? hspot added
      | @alters top changed change root members made hchanged hnodes hchange hfixed hbearing =>
          by_cases hturns : command.turns = some top
          · have hsize : (change changed.item changed.inner).2.size = changed.inner.size := by
              have htree := congrArg Forest.size hfixed
              simp only [Spot.tree, size_map, Forest.size] at htree
              simp only [hchange]
              omega
            have hapart : top.index < id.index ∨ id.index + spot.inner.size < top.index := by
              have hcovers := hcommand top hturns
              rw [Synthesizer.covers_iff hspot] at hcovers
              omega
            refine ⟨spot, ?_, hunturned⟩
            rw [Synthesizer.node?, hnodes]
            exact spot?_update_of_apart hchanged hspot hunturned.above hapart hsize
          · have hsame : next.synth.nodes.map NodeState.bearing =
                bench.synth.nodes.map NodeState.bearing :=
              (congrArg _ hnodes).trans (map_update_eq hchanged hchange (hbearing hturns))
            have hfound := congrArg (spot? id.index) hsame
            rw [spot?_map, spot?_map, show bench.synth.nodes.spot? id.index = some spot from hspot]
              at hfound
            obtain ⟨now, hnow, heq⟩ := Option.map_eq_some_iff.mp hfound
            obtain ⟨habove, -, hroot, hmembers⟩ := Spot.mk.inj heq
            exact ⟨now, hnow, habove.trans hunturned.above, hroot.trans hunturned.root,
              hmembers.trans hunturned.members⟩

theorem Fresh.of_obeyAll? {commands : List Command} (h : Fresh template id bench)
    (hcommands : ∀ command ∈ commands, command.turns = none)
    (hnext : bench.obeyAll? commands = some next) : Fresh template id next := by
  induction commands generalizing bench with
  | nil =>
      obtain rfl := Option.some.inj hnext
      exact h
  | cons command rest ih =>
      obtain ⟨hfirst, hothers⟩ := List.forall_mem_cons.mp hcommands
      obtain ⟨middle, hmiddle, hrest⟩ := Option.bind_eq_some_iff.mp hnext
      exact ih (.kept h (fun top hturns => nomatch hfirst.symm.trans hturns) hmiddle) hothers hrest

end Workbench

-- The assignment between the leaves of two instances at the end of a route: the
-- first instance reads from the second, or the other way round where the number of
-- turns on the way is odd.
def Crosses (route : List String × Nat) (x y : List String × NodeState) (link : Connection) :
    Prop :=
  x.1 = route.1 ∧ y.1 = route.1 ∧
    if Even route.2 then x.2.signal = some link.destination ∧ y.2.signal = some link.source
    else y.2.signal = some link.destination ∧ x.2.signal = some link.source

-- One assignment for each route, in the order of the leaves.
def CrossesAll (routes : List (List String × Nat)) (xs ys : List (List String × NodeState))
    (links : List Connection) : Prop :=
  List.Forall₂ (fun (route, x, y) link => Crosses route x y link) (routes.zip (xs.zip ys)) links

theorem crosses_succ {path : List String} {turns : Nat} {x y : List String × NodeState}
    {link : Connection} :
    Crosses (path, turns + 1) x y link ↔ Crosses (path, turns) y x link := by
  simp only [Crosses, Nat.even_add_one]
  by_cases heven : Even turns
  · simp only [heven, not_true_eq_false, if_false, if_true, and_left_comm]
  · simp only [heven, not_false_eq_true, if_true, if_false, and_left_comm]

-- One more turn on the way exchanges the two.
theorem CrossesAll.turn {routes : List (List String × Nat)} {xs ys : List (List String × NodeState)}
    {links : List Connection} (h : CrossesAll routes ys xs links) :
    CrossesAll (routes.map fun (path, turns) => (path, turns + 1)) xs ys links := by
  rw [CrossesAll, ← List.zip_swap ys xs, List.zip_map, List.forall₂_map_left_iff]
  exact h.imp fun entry link hlink => crosses_succ.mpr hlink

theorem CrossesAll.append {routes more : List (List String × Nat)}
    {xs ys xs' ys' : List (List String × NodeState)} {links later : List Connection}
    (h : CrossesAll routes xs ys links) (hlater : CrossesAll more xs' ys' later)
    (hxs : xs.length = routes.length) (hys : ys.length = routes.length) :
    CrossesAll (routes ++ more) (xs ++ xs') (ys ++ ys') (links ++ later) := by
  have hlength : routes.length = (xs.zip ys).length := by
    rw [List.length_zip, hxs, hys, Nat.min_self]
  rw [CrossesAll, List.zip_append (hxs.trans hys.symm), List.zip_append hlength]
  exact List.rel_append h hlater

namespace Wiring

-- A member as it is in an instance that nobody turned.
def unturned (shape : Shape) : (Direction × Bool) × Side :=
  ((shape.masterDirection, false), .slave)

-- Two nodes with what is below them are joined leaf by leaf, if the first is asked
-- to read from the second.
def NodesCross (shapes : Forest Shape) (a b : NodeState) (inner below : Forest NodeState)
    (links : List Connection) : Prop :=
  (∀ destination source : Endpoint, destination.state = a → destination.members = inner →
    source.state = b → source.members = below → Made (steps destination source) links) ∧
  ∀ path, CrossesAll (leavesAt path 0 (shapes.turns 0)) (leavesAt path a inner)
    (leavesAt path b below) links

-- The same for all nodes of a level.
def MembersCross (shapes : Forest Shape) (a b : Forest NodeState) (links : List Connection) :
    Prop :=
  (∀ destination source : Endpoint,
    (∀ name ∈ b.names, source.members.find? name = b.find? name) →
      Made (memberSteps destination a source) links) ∧
  ∀ path, CrossesAll ((shapes.turns 0).leaves path) (a.leaves path) (b.leaves path) links

theorem map_unit_of_unturned {shapes : Forest Shape} {forest : Forest NodeState}
    (h : forest.map NodeState.bearing = shapes.map unturned) (before : Nat) :
    forest.map (fun _ => ()) = (shapes.turns before).map fun _ => () := by
  rw [map_turns]
  simpa only [map_map] using congrArg (map fun _ => ()) h

theorem joinSteps_of_bearing {shape : Shape} {member counterpart : Endpoint}
    (h : member.state.bearing = unturned shape) (hdirected : shape.masterDirection ≠ .inout) :
    joinSteps member counterpart =
      if shape.masterDirection = .input then steps counterpart member
      else steps member counterpart := by
  have hdirection : member.state.masterDirection = shape.masterDirection :=
    congrArg (fun bearing => bearing.1.1) h
  have hside : member.state.side = .slave := congrArg Prod.snd h
  rw [joinSteps, flow?, hdirection, hside]
  cases hshape : shape.masterDirection with
  | inout => exact absurd hshape hdirected
  | input | output => rfl

theorem exists_nodesCross {shapes : Forest Shape} {a b : NodeState}
    {inner below : Forest NodeState} {path : List String} (ha : a.external = false)
    (hinner : inner.map NodeState.bearing = shapes.map unturned)
    (hbelow : below.map NodeState.bearing = shapes.map unturned)
    (hleaves : ∀ leaf ∈ leavesAt path a inner, leaf.2.signal.isSome)
    (hothers : ∀ leaf ∈ leavesAt path b below, leaf.2.signal.isSome)
    (hmembers : ∃ links, MembersCross shapes inner below links) :
    ∃ links, NodesCross shapes a b inner below links := by
  cases shapes with
  | nil =>
      cases inner with
      | cons => cases hinner
      | nil =>
          cases below with
          | cons => cases hbelow
          | nil =>
              obtain ⟨driven, hdriven⟩ :=
                Option.isSome_iff_exists.mp (hleaves _ List.mem_cons_self)
              obtain ⟨driving, hdriving⟩ :=
                Option.isSome_iff_exists.mp (hothers _ List.mem_cons_self)
              refine ⟨[⟨driven, driving⟩], ?_, fun path => ?_⟩
              · rintro destination source rfl hnone rfl -
                rw [steps_of_leaf hnone]
                exact .cons (leaf_of_signals (.inl ha) hdriven hdriving) .nil
              · refine .cons ⟨rfl, rfl, ?_⟩ .nil
                rw [if_pos Even.zero]
                exact ⟨hdriven, hdriving⟩
  | cons name shape shapesInner shapesRest =>
      obtain ⟨links, hmade, hcrosses⟩ := hmembers
      cases inner with
      | nil => cases hinner
      | cons first item deep rest =>
          cases below with
          | nil => cases hbelow
          | cons other held deep' others =>
              refine ⟨links, ?_, fun path => hcrosses path⟩
              rintro destination source rfl hinside rfl hbeside
              rw [steps_of_members hinside]
              exact hmade destination source fun name _ => by rw [hbeside]

-- A member and its counterpart, one way round or the other. Where the member has
-- master direction in the two are exchanged, and all that is below it is read from
-- the other one's tree.
theorem exists_memberCross {shape : Shape} {shapes : Forest Shape} {state held : NodeState}
    {within below : Forest NodeState} {path : List String}
    (hdirected : shape.masterDirection ≠ .inout) (hstate : state.bearing = unturned shape)
    (hheld : held.bearing = unturned shape)
    (hwithin : within.map NodeState.bearing = shapes.map unturned)
    (hbelow : below.map NodeState.bearing = shapes.map unturned)
    (hleaves : ∀ leaf ∈ leavesAt path state within, leaf.2.signal.isSome)
    (hothers : ∀ leaf ∈ leavesAt path held below, leaf.2.signal.isSome)
    (hforth : ∃ links, MembersCross shapes within below links)
    (hback : ∃ links, MembersCross shapes below within links) :
    ∃ links, (∀ member counterpart : Endpoint, member.state = state → member.members = within →
        counterpart.state = held → counterpart.members = below →
          Made (joinSteps member counterpart) links) ∧
      ∀ path, CrossesAll
        (leavesAt path (if shape.masterDirection = .input then 0 + 1 else 0)
          (shapes.turns (if shape.masterDirection = .input then 0 + 1 else 0)))
        (leavesAt path state within) (leavesAt path held below) links := by
  by_cases hin : shape.masterDirection = .input
  · obtain ⟨links, hmade, hcrosses⟩ := exists_nodesCross
      (congrArg (fun bearing => bearing.1.2) hheld) hbelow hwithin hothers hleaves hback
    refine ⟨links, ?_, fun path => ?_⟩
    · rintro member counterpart rfl hmember rfl hcounterpart
      rw [joinSteps_of_bearing hstate hdirected, if_pos hin]
      exact hmade counterpart member rfl hcounterpart rfl hmember
    · rw [if_pos hin, turns_succ, leavesAt_map (· + 1)]
      exact (hcrosses path).turn
  · obtain ⟨links, hmade, hcrosses⟩ := exists_nodesCross
      (congrArg (fun bearing => bearing.1.2) hstate) hwithin hbelow hleaves hothers hforth
    refine ⟨links, ?_, fun path => ?_⟩
    · rintro member counterpart rfl hmember rfl hcounterpart
      rw [joinSteps_of_bearing hstate hdirected, if_neg hin]
      exact hmade member counterpart rfl hmember rfl hcounterpart
    · rw [if_neg hin]
      exact hcrosses path

-- Two levels of fresh instances are joined leaf by leaf. The induction is on the
-- shapes with both trees general, so that a member has the hypothesis for either
-- way round.
theorem exists_membersCross {shapes : Forest Shape} {a b : Forest NodeState} {path : List String}
    (ha : a.map NodeState.bearing = shapes.map unturned)
    (hb : b.map NodeState.bearing = shapes.map unturned) (hdistinct : shapes.Distinct)
    (hdirected : shapes.All (·.masterDirection ≠ .inout))
    (hleaves : ∀ leaf ∈ a.leaves path, leaf.2.signal.isSome)
    (hothers : ∀ leaf ∈ b.leaves path, leaf.2.signal.isSome) :
    ∃ links, MembersCross shapes a b links := by
  induction shapes generalizing a b path with
  | nil =>
      cases a with
      | cons => cases ha
      | nil =>
          cases b with
          | cons => cases hb
          | nil =>
              refine ⟨[], fun destination source _ => ?_, fun path => .nil⟩
              rw [memberSteps]
              exact .nil
  | cons name shape inner rest ihi ihr =>
      cases a with
      | nil => cases ha
      | cons name' state within others =>
          cases b with
          | nil => cases hb
          | cons label held below more =>
              obtain ⟨rfl, hstate, hwithin, hrest⟩ := Forest.cons.inj ha
              obtain ⟨rfl, hheld, hbelow, hmore⟩ := Forest.cons.inj hb
              obtain ⟨hname, hdistinctInner, hdistinctRest⟩ := hdistinct
              obtain ⟨hdirection, hdirectedInner, hdirectedRest⟩ := hdirected
              rw [leaves_cons, List.forall_mem_append] at hleaves hothers
              obtain ⟨hleaf, hleaves⟩ := hleaves
              obtain ⟨hother, hothers⟩ := hothers
              have hwithinBacked : ∀ leaf ∈ within.leaves (path ++ [label]), leaf.2.signal.isSome :=
                fun leaf hmem => hleaf leaf (mem_leavesAt_of_mem_leaves hmem _)
              have hbelowBacked : ∀ leaf ∈ below.leaves (path ++ [label]), leaf.2.signal.isSome :=
                fun leaf hmem => hother leaf (mem_leavesAt_of_mem_leaves hmem _)
              obtain ⟨first, hmade, hcrosses⟩ := exists_memberCross hdirection hstate hheld hwithin
                hbelow hleaf hother
                (ihi hwithin hbelow hdistinctInner hdirectedInner hwithinBacked hbelowBacked)
                (ihi hbelow hwithin hdistinctInner hdirectedInner hbelowBacked hwithinBacked)
              obtain ⟨links, hlater, hlaterCrosses⟩ :=
                ihr hrest hmore hdistinctRest hdirectedRest hleaves hothers
              have hother : label ∉ more.names := by
                have hnames := congrArg names hmore
                rw [names_map, names_map] at hnames
                exact hnames ▸ hname
              refine ⟨first ++ links, fun destination source hfind => ?_, fun path => ?_⟩
              · obtain ⟨hfound, hfind⟩ := find?_of_agrees hother hfind
                rw [memberSteps_of_find? hfound]
                exact List.rel_append (hmade _ _ rfl rfl rfl rfl) (hlater _ _ hfind)
              · rw [turns, leaves_cons, leaves_cons, leaves_cons]
                exact (hcrosses _).append (hlaterCrosses path)
                  (length_leavesAt_of_map (map_unit_of_unturned hwithin _) _ _ _)
                  (length_leavesAt_of_map (map_unit_of_unturned hbelow _) _ _ _)

end Wiring

namespace Workbench

variable {bench : Workbench} {template : Template} {target origin : NodeId}
  {driven driving : Spot NodeState}

-- Two fresh instances of a template whose members are all in or out are joined
-- leaf by leaf, once all leaves have signals. There is one assignment for each
-- leaf, in the order of the leaves, between those with one path. The destination
-- reads where the number of members on the path with master direction in is even,
-- and is read where it is odd.
theorem wiring_by_parity {allowed : Workbench → Command → Prop} {design : Design}
    {separator : String} {ports : List (String × Direction)}
    (h : Building allowed (unclaimedPorts design separator ports) bench)
    (htemplate : template.Built) (hdirected : template.Directed)
    (htarget : Fresh template target bench) (horigin : Fresh template origin bench)
    (hdriven : bench.synth.node? target = some driven)
    (hdriving : bench.synth.node? origin = some driving)
    (hbacked : ∀ leaf ∈ driven.leaves ++ driving.leaves, leaf.2.signal.isSome) :
    ∃ wired links,
      bench.wire? (bench.synth.wiring target origin) = some (wired, none) ∧
      wired.design.arch.connections = bench.design.arch.connections ++ links ∧
      driven.leaves.map (·.1) = template.routes.map (·.1) ∧
      driving.leaves.map (·.1) = template.routes.map (·.1) ∧
      (template.routes.map (·.1)).Nodup ∧
      List.Forall₂ (fun (route, x, y) link => Crosses route x y link)
        (template.routes.zip (driven.leaves.zip driving.leaves)) links := by
  have hstanding := standing_of_building h
  obtain ⟨_, hspot, hunturned⟩ := htarget.exists_unturned
  obtain rfl := Option.some.inj (hspot.symm.trans hdriven)
  obtain ⟨_, hspot', hunturned'⟩ := horigin.exists_unturned
  obtain rfl := Option.some.inj (hspot'.symm.trans hdriving)
  rw [List.forall_mem_append] at hbacked
  obtain ⟨hleaves, hothers⟩ := hbacked
  obtain ⟨links, hmade, hcrosses⟩ := Wiring.exists_nodesCross
    (congrArg (fun bearing => bearing.1.2) hunturned.root) hunturned.members hunturned'.members
    hleaves hothers (Wiring.exists_membersCross hunturned.members hunturned'.members
      htemplate.distinct hdirected
      (fun leaf hmem => hleaves leaf (mem_leavesAt_of_mem_leaves hmem _))
      fun leaf hmem => hothers leaf (mem_leavesAt_of_mem_leaves hmem _))
  have hends : ∀ link ∈ links, bench.design.arch.hasSignal link.destination ∧
      bench.design.arch.hasSignal link.source := by
    intro link hmem
    obtain ⟨⟨route, x, y⟩, hentry, -, -, hlink⟩ := exists_mem_of_forall₂ (hcrosses []) hmem
    obtain ⟨hx, hy⟩ := List.of_mem_zip (List.of_mem_zip hentry).2
    have hxItem := mem_items_of_mem_spot_leaves hspot hx
    have hyItem := mem_items_of_mem_spot_leaves hspot' hy
    split at hlink
    · exact ⟨hstanding.hasSignal hxItem hlink.1, hstanding.hasSignal hyItem hlink.2⟩
    · exact ⟨hstanding.hasSignal hyItem hlink.1, hstanding.hasSignal hxItem hlink.2⟩
  obtain ⟨arch, harch, hconnections⟩ := bench.design.arch.exists_connectAll? hends
  have hwiring : bench.synth.wiring target origin = ⟨links, none⟩ := by
    rw [wiring_ofSpot hspot hspot']
    have hrun := Wiring.run_of_made (hmade (.ofSpot _) (.ofSpot _) rfl rfl rfl rfl) []
    rw [List.append_nil] at hrun
    rw [hrun]
    exact congrArg (Wiring.mk · none) (List.append_nil links)
  refine ⟨{ bench with design := { bench.design with arch } }, links, ?_, hconnections,
    paths_eq_of_map (Wiring.map_unit_of_unturned hunturned.members 0) ..,
    paths_eq_of_map (Wiring.map_unit_of_unturned hunturned'.members 0) .., ?_, hcrosses []⟩
  · rw [hwiring, wire?, harch]
    rfl
  · rw [Template.routes, paths_eq_of_map (map_turns 0 template.members) [] 0 ⟨.output, 0⟩]
    exact nodup_leavesAt htemplate.distinct [] _

-- Data with a way back, on which there is a way forth again.
def duplex : InterfaceClass :=
  .mk "duplex" [] [.leaf "data" .output 8, .nested "back_" .input
    (.mk "credit" [] [.leaf "ready" .output 1, .leaf "token" .input 1])]

def duplexTemplate : Template :=
  ⟨"duplex", .cons "data" ⟨.output, 8⟩ .nil (.cons "back_" ⟨.input, 0⟩
    (.cons "ready" ⟨.output, 1⟩ .nil (.cons "token" ⟨.input, 1⟩ .nil .nil)) .nil)⟩

def withDuplex : Workbench :=
  { noInterfaces with synth := (noInterfaces.synth.instantiate duplexTemplate false none []).2 }

def withDuplexes : Workbench :=
  { withDuplex with synth := (withDuplex.synth.instantiate duplexTemplate false none []).2 }

def backDuplexes : List Command :=
  [.interface (.materialize ⟨0⟩ "a"), .interface (.materialize ⟨5⟩ "b")]

def withBackedDuplexes : Workbench :=
  (withDuplexes.obeyAll? backDuplexes).get (by decide +kernel)

theorem wiring_of_duplexes :
    ∃ driven driving, Building (fun _ _ => True) noInterfaces withBackedDuplexes ∧
      duplexTemplate.Built ∧ duplexTemplate.Directed ∧
      Fresh duplexTemplate ⟨0⟩ withBackedDuplexes ∧ Fresh duplexTemplate ⟨5⟩ withBackedDuplexes ∧
      withBackedDuplexes.synth.node? ⟨0⟩ = some driven ∧
      withBackedDuplexes.synth.node? ⟨5⟩ = some driving ∧
      duplexTemplate.routes = [(["data"], 0), (["back_", "ready"], 1), (["back_", "token"], 2)] ∧
      withBackedDuplexes.synth.wiring ⟨0⟩ ⟨5⟩ =
        ⟨[⟨⟨0⟩, ⟨3⟩⟩, ⟨⟨4⟩, ⟨1⟩⟩, ⟨⟨2⟩, ⟨5⟩⟩], none⟩ ∧
      ∃ wired links,
        withBackedDuplexes.wire? (withBackedDuplexes.synth.wiring ⟨0⟩ ⟨5⟩) = some (wired, none) ∧
        wired.design.arch.connections = withBackedDuplexes.design.arch.connections ++ links ∧
        driven.leaves.map (·.1) = duplexTemplate.routes.map (·.1) ∧
        driving.leaves.map (·.1) = duplexTemplate.routes.map (·.1) ∧
        (duplexTemplate.routes.map (·.1)).Nodup ∧
        List.Forall₂ (fun (route, x, y) link => Crosses route x y link)
          (duplexTemplate.routes.zip (driven.leaves.zip driving.leaves)) links := by
  let command : Command := .interface (.instantiate duplexTemplate false none [])
  have hfirst : noInterfaces.obey? command = some withDuplex := rfl
  have hsecond : withDuplex.obey? command = some withDuplexes := rfl
  have hlast : withDuplexes.obeyAll? backDuplexes = some withBackedDuplexes :=
    (Option.some_get _).symm
  have hbuilding : Building (fun _ _ => True) noInterfaces withBackedDuplexes :=
    building_obeyAll? ((Building.start.step trivial hfirst).step trivial hsecond) hlast
  have hturns : ∀ command ∈ backDuplexes, command.turns = none := by
    simp [backDuplexes, Command.turns]
  have hnone : ∀ top, command.turns = some top → ¬ withDuplex.synth.Covers ⟨0⟩ top := nofun
  have htarget : Fresh duplexTemplate ⟨0⟩ withBackedDuplexes :=
    (Fresh.kept (.made rfl hfirst) hnone hsecond).of_obeyAll? hturns hlast
  have horigin : Fresh duplexTemplate ⟨5⟩ withBackedDuplexes :=
    (Fresh.made (by decide +kernel) hsecond).of_obeyAll? hturns hlast
  have hbuilt : duplexTemplate.Built := ⟨[], duplex, by decide +kernel⟩
  have hdirected : duplexTemplate.Directed := by simp [Template.Directed, duplexTemplate, All]
  have hdriven : (withBackedDuplexes.synth.node? ⟨0⟩).map (·.leaves.all (·.2.signal.isSome)) =
      some true := by decide +kernel
  have hdriving : (withBackedDuplexes.synth.node? ⟨5⟩).map (·.leaves.all (·.2.signal.isSome)) =
      some true := by decide +kernel
  obtain ⟨driven, hdriven, hleaves⟩ := Option.map_eq_some_iff.mp hdriven
  obtain ⟨driving, hdriving, hothers⟩ := Option.map_eq_some_iff.mp hdriving
  have hbacked : ∀ leaf ∈ driven.leaves ++ driving.leaves, leaf.2.signal.isSome := by
    rw [List.forall_mem_append]
    exact ⟨List.all_eq_true.mp hleaves, List.all_eq_true.mp hothers⟩
  exact ⟨driven, driving, hbuilding, hbuilt, hdirected, htarget, horigin, hdriven, hdriving,
    by decide +kernel, by decide +kernel,
    wiring_by_parity hbuilding hbuilt hdirected htarget horigin hdriven hdriving hbacked⟩

end Workbench

end Rtl
