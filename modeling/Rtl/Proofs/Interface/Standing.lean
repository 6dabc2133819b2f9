import Rtl.Proofs.Interface.Rebinding
import Rtl.Proofs.Interface.Connections
import Rtl.Proofs.Types.Building

namespace Rtl

open Forest

-- What decides which way a node is driven.
def NodeState.bearing (state : NodeState) : (Direction × Bool) × Side := (state.fixed, state.side)

namespace Forest

variable {α β γ : Type} {forest front back : Forest α} {index : Nat} {spot : Spot α}
  {p : α → Prop}

-- So are all but the entries of the outermost level.
def AllInside (p : α → Prop) : Forest α → Prop
  | nil => True
  | cons _ _ inner rest => inner.All p ∧ rest.AllInside p

-- An entry with what is inside it, without its name.
def Spot.tree (spot : Spot α) : Forest α := cons "" spot.item spot.inner nil

theorem allInside_map (f : α → β) (p : β → Prop) :
    (forest.map f).AllInside p ↔ forest.AllInside fun item => p (f item) := by
  induction forest with
  | nil => rfl
  | cons name item inner rest _ ih => simp only [map, AllInside, all_map, ih]

theorem AllInside.append (hfront : front.AllInside p) (hback : back.AllInside p) :
    (front.append back).AllInside p := by
  induction front with
  | nil => exact hback
  | cons name item inner rest _ ih => exact ⟨hfront.1, ih hfront.2⟩

theorem All.of_spot? (h : forest.All p) (hspot : forest.spot? index = some spot) :
    p spot.item ∧ spot.inner.All p := by
  induction hspot using spot?_induction with
  | here name item inner rest => exact ⟨h.1, h.2.1⟩
  | within name item inner rest index spot hspot ih => exact ih h.2.1
  | later name item inner rest index spot hspot ih => exact ih h.2.2

theorem AllInside.of_spot? (h : forest.AllInside p) (hspot : forest.spot? index = some spot) :
    (spot.above ≠ [] → p spot.item) ∧ spot.inner.All p := by
  induction hspot using spot?_induction with
  | here name item inner rest => exact ⟨fun hne => absurd rfl hne, h.1⟩
  | within name item inner rest index spot hspot ih =>
      obtain ⟨hitem, hinner⟩ := h.1.of_spot? hspot
      exact ⟨fun _ => hitem, hinner⟩
  | later name item inner rest index spot hspot ih => exact ih h.2

theorem all_iff_forall_mem_items : forest.All p ↔ ∀ item ∈ forest.items, p item := by
  induction forest with
  | nil => simp [All, items]
  | cons name item inner rest ihi ihr =>
      rw [All, items, List.forall_mem_cons, List.forall_mem_append, ihi, ihr]

theorem mem_items_of_spot? {index : Nat} {spot : Spot α} (h : forest.spot? index = some spot) :
    spot.item ∈ forest.items ∧ spot.inner.All (· ∈ forest.items) :=
  (all_iff_forall_mem_items.mpr fun _ hmem => hmem : forest.All (· ∈ forest.items)).of_spot? h

theorem map_eq_of_map {f : α → β} {one other : Forest α} (h : one.map f = other.map f)
    (g : β → γ) : one.map (fun item => g (f item)) = other.map fun item => g (f item) := by
  simpa only [map_map] using congrArg (map g) h

-- A change that cannot be seen at the entry cannot be seen at all.
theorem map_update_eq {f : α → β} {change : α → Forest α → α × Forest α} {root : α}
    {members : Forest α} (h : forest.spot? index = some spot)
    (hchange : change spot.item spot.inner = (root, members))
    (hsame : (cons "" root members nil).map f = spot.tree.map f) :
    (forest.update change index).map f = forest.map f := by
  induction h using spot?_induction with
  | here name item inner rest =>
      obtain ⟨-, hroot, hmembers, -⟩ := Forest.cons.inj hsame
      rw [update_zero, hchange, map, map, hroot, hmembers]
  | within name item inner rest index spot hspot ih =>
      rw [update_within hspot, map, map, ih hchange hsame]
  | later name item inner rest index spot hspot ih => rw [update_rest, map, map, ih hchange hsame]

-- The backing signals in the order of the nodes.
def signals (forest : Forest NodeState) : List SignalId := forest.items.filterMap NodeState.signal

theorem signals_cons (name : String) (state : NodeState) (inner rest : Forest NodeState) :
    (cons name state inner rest).signals =
      state.signal.toList ++ (inner.signals ++ rest.signals) := by
  rw [signals, items, List.filterMap_cons, List.filterMap_append]
  cases state.signal with
  | none | some => rfl

theorem signals_append (front back : Forest NodeState) :
    (front.append back).signals = front.signals ++ back.signals := by
  simp only [signals, items_append, List.filterMap_append]

theorem signals_eq_of_map {one other : Forest NodeState}
    (h : one.map NodeState.signal = other.map NodeState.signal) : one.signals = other.signals := by
  have hitems := congrArg (fun forest => forest.items.filterMap id) h
  simp only [items_map, List.filterMap_map] at hitems
  exact hitems

theorem signals_of_unsigned {forest : Forest NodeState} (h : forest.All (·.signal = none)) :
    forest.signals = [] := by
  induction forest with
  | nil => rfl
  | cons name state inner rest ihi ihr =>
      rw [signals_cons, h.1, ihi h.2.1, ihr h.2.2]
      rfl

theorem exists_signals_update {forest : Forest NodeState} {spot : Spot NodeState}
    (h : forest.spot? index = some spot) :
    ∃ front back, forest.signals = front ++ spot.tree.signals ++ back ∧
      ∀ change : NodeState → Forest NodeState → NodeState × Forest NodeState,
        (forest.update change index).signals = front ++
          (cons "" (change spot.item spot.inner).1 (change spot.item spot.inner).2 nil).signals ++
            back := by
  obtain ⟨front, back, -, hitems, hupdate⟩ := exists_items_update h
  refine ⟨front.filterMap NodeState.signal, back.filterMap NodeState.signal, ?_, fun change => ?_⟩
  · simp only [signals, Spot.tree, items, hitems, List.filterMap_append, List.append_nil]
  · simp only [signals, items, hupdate, List.filterMap_append, List.append_nil]

end Forest

namespace Match

theorem unresolved_unbind (undone : List NodeId) (id : Nat) (forest : Forest NodeState) :
    (unbind undone id forest).map NodeState.unresolved = forest.map NodeState.unresolved := by
  induction forest generalizing id with
  | nil => rfl
  | cons name state inner rest ihi ihr =>
      simp only [unbind, map, ihi, ihr]
      split <;> rfl

-- However an attempt ends, it changes nothing but sides and ports.
theorem unresolved_members (id : Nat) (stem : String) (forest : Forest NodeState)
    (claims : Claims) :
    (members id stem forest claims).nodes.map NodeState.unresolved =
      forest.map NodeState.unresolved := by
  induction forest generalizing id stem claims with
  | nil => rfl
  | cons name state inner rest ihi ihr =>
      cases inner with
      | nil =>
          simp only [members]
          split
          · rfl
          · rename_i bound now hbound
            simp only [Attempt.after, map, (bound_of_bindLeaf hbound).2, ihr]
      | cons first item below beside =>
          have hinner := ihi (id + 1) (stem ++ name) claims
          simp only [members]
          split
          · simp only [Attempt.undo, map, unresolved_unbind, hinner]
          · simp only [Attempt.after, map, hinner, ihr]
            rfl

end Match

namespace Synthesizer

theorem exists_nodes_matchByName {synth : Synthesizer} {id : NodeId} {spot : Spot NodeState}
    (h : synth.node? id = some spot) (stem : String) (claims : Claims) :
    ∃ root below, (Match.node id stem spot.item spot.inner claims).nodes = cons "" root below nil ∧
      (cons "" root below nil).map NodeState.unresolved = spot.tree.map NodeState.unresolved ∧
      (synth.matchByName id stem claims).2.1.nodes =
        synth.nodes.update (fun _ _ => (root, below)) id.index := by
  have hkept := Match.unresolved_members id.index stem (cons "" spot.item spot.inner nil) claims
  simp only [matchByName, h, Match.node]
  generalize (Match.members id.index stem _ claims).nodes = nodes at hkept ⊢
  cases nodes with
  | nil => cases hkept
  | cons name root below rest =>
      obtain ⟨rfl, -, -, hrest⟩ := Forest.cons.inj hkept
      cases rest with
      | cons => cases hrest
      | nil => exact ⟨root, below, rfl, hkept, rfl⟩

end Synthesizer

namespace Architecture

variable {before now last : Architecture} {made more : List SignalId}

-- Signals that an architecture has and an earlier one did not have.
structure Gained (before now : Architecture) (made : List SignalId) : Prop where
  nodup : made.Nodup
  new : ∀ signal ∈ made, ¬ before.hasSignal signal
  there : ∀ signal ∈ made, now.hasSignal signal

namespace Gained

theorem none (before now : Architecture) : before.Gained now [] :=
  ⟨List.nodup_nil, nofun, nofun⟩

theorem append (h : before.Gained now made) (hnext : now.Gained last more)
    (hgrows : before.Grows now) (hlast : now.Grows last) : before.Gained last (made ++ more) where
  nodup := List.nodup_append'.mpr ⟨h.nodup, hnext.nodup,
    fun signal hmade hmore => hnext.new signal hmore (h.there signal hmade)⟩
  new signal hmem := by
    rcases List.mem_append.mp hmem with hmade | hmore
    · exact h.new signal hmade
    · exact fun hbefore => hnext.new signal hmore (hgrows.hasSignal hbefore)
  there signal hmem := by
    rcases List.mem_append.mp hmem with hmade | hmore
    · exact hlast.hasSignal (h.there signal hmade)
    · exact hnext.there signal hmore

end Gained

theorem grows_foldl {α : Type} {change : Architecture → α → Architecture}
    (hchange : ∀ (arch : Architecture) item, arch.Grows (change arch item)) (items : List α)
    (arch : Architecture) : arch.Grows (items.foldl change arch) :=
  List.foldlRecOn items change (.refl arch) fun now hnow item _ => hnow.trans (hchange now item)

theorem grows_allocWith (arch : Architecture) (item : SignalId → Signal) :
    arch.Grows { arch with signals := (arch.signals.allocWith item).2 } :=
  ⟨rfl, (arch.signals.size_allocWith item).ge.trans' (Nat.le_succ _), fun _ hmem => hmem⟩

theorem grows_addHidden (arch : Architecture) (name : NameId) (type : TypeId) (origin : Expr) :
    arch.Grows (arch.addHidden name type origin).2 := by
  have hadded := arch.grows_allocWith fun id =>
    { id, name, type, default := none, drivers := [], readers := [], hidden := true
      origin := some origin, leaf := none }
  exact hadded.trans (grows_foldl (fun _ _ => grows_modify ..) ..)

theorem grows_addProcess (arch : Architecture) (name : NameId) (sensitivity : List SignalId)
    (body : List Statement) : arch.Grows (arch.addProcess name sensitivity body).2 := by
  have hprocess (processes : Arena .process Process) : arch.Grows { arch with processes } :=
    ⟨rfl, Nat.le_refl _, fun _ hmem => hmem⟩
  exact ((hprocess _).trans (grows_foldl (fun _ _ => grows_modify ..) ..)).trans
    (grows_foldl (fun _ _ => grows_modify ..) ..)

theorem grows_addComponent (arch : Architecture) (component : Component) :
    arch.Grows (arch.addComponent component) := by
  have hstep (now : Architecture) (entry : NameId × SignalId) :
      now.Grows ((now.addDriver entry.2 (.component arch.components.length)).addReader entry.2
        (.component arch.components.length)) := (grows_modify ..).trans (grows_modify ..)
  have hused := grows_foldl hstep component.portMap arch
  exact ⟨hused.entity, hused.signals, hused.portBindings⟩

end Architecture

namespace Backing

-- A leaf without a signal gets a new one.
theorem leaf_gained (id : NodeId) (name : String) (state : NodeState) (design : Design) :
    ∃ made, design.arch.Gained (leaf id name state design).2.2.arch made ∧
      (leaf id name state design).2.1.signal.toList = made ++ state.signal.toList ∧
      (leaf id name state design).2.1.bearing = state.bearing := by
  cases hsignal : state.signal with
  | some signal =>
      refine ⟨[], .none .., ?_, ?_⟩
      · simp only [leaf, hsignal, List.nil_append]
      · simp only [leaf, hsignal]
  | none =>
      have hadded := (design.arch.grows_addSignal (design.names.intern name).1
        (design.types.ofWidth state.width).1 none).2
      refine ⟨[(design.addWire name state.width).1], ⟨List.nodup_singleton _, ?_, ?_⟩, ?_, ?_⟩
      · rw [List.forall_mem_singleton]
        exact fun hlt => Nat.lt_irrefl _ (of_decide_eq_true hlt)
      · rw [List.forall_mem_singleton]
        have htagged := (Architecture.grows_modify _ (design.addWire name state.width).1
          fun signal => { signal with leaf := some id }).hasSignal hadded
        simp only [leaf, hsignal]
        cases state.port with
        | none => exact htagged
        | some port => exact (Architecture.grows_bindPort ..).1.hasSignal htagged
      · simp only [leaf, hsignal]
        rfl
      · simp only [leaf, hsignal]
        rfl

theorem members_gained (separator : String) (id : Nat) (stem : String)
    (forest : Forest NodeState) (design : Design) :
    ∃ made, design.arch.Gained (members separator id stem forest design).2.2.arch made ∧
      ((members separator id stem forest design).2.1.signals).Perm (made ++ forest.signals) ∧
      (members separator id stem forest design).2.1.map NodeState.bearing =
        forest.map NodeState.bearing := by
  induction forest generalizing id stem design with
  | nil => exact ⟨[], .none .., .refl _, rfl⟩
  | cons name state inner rest ihi ihr =>
      cases inner with
      | nil =>
          obtain ⟨made, hmade, hsignal, hleaf⟩ :=
            leaf_gained ⟨id⟩ (stem ++ separator ++ name) state design
          obtain ⟨more, hmore, hrest, hlater⟩ := ihr (id + 1) stem
            (leaf ⟨id⟩ (stem ++ separator ++ name) state design).2.2
          refine ⟨made ++ more, hmade.append hmore (grows_leaf ..) (grows_members ..), ?_, ?_⟩
          · simp only [members, signals_cons, hsignal]
            exact (hrest.append_left _).trans (perm_append_append ..)
          · simp only [members, map, hleaf, hlater]
      | cons first item below beside =>
          obtain ⟨made, hmade, hinner, hwithin⟩ := ihi (id + 1) (stem ++ separator ++ name) design
          obtain ⟨more, hmore, hrest, hlater⟩ :=
            ihr (id + 1 + (Forest.cons first item below beside).size) stem
              (members separator (id + 1) (stem ++ separator ++ name)
                (.cons first item below beside) design).2.2
          refine ⟨made ++ more, hmade.append hmore (grows_members ..) (grows_members ..), ?_, ?_⟩
          · rw [members, signals_cons, signals_cons]
            have hboth := (hinner.append hrest).trans (perm_append_append ..)
            exact (hboth.append_left _).trans (List.perm_append_comm_assoc ..)
          · rw [members, map, map, hwithin, hlater]

end Backing

-- The node at which a command settles or turns sides, those of all nodes below it included.
def Command.turns : Command → Option NodeId
  | .interface (.matchByName id _) => some id
  | .interface (.reverse id) => some id
  | _ => none

namespace Workbench

variable {bench next : Workbench} {command : Command}

-- What a command does to the nodes of a unit: it adds instances, or it changes
-- one node with those below it.
inductive Changes (bench next : Workbench) (command : Command) : Prop
  | adds (added : Forest NodeState) (hnodes : next.synth.nodes = bench.synth.nodes.append added)
      (hinside : added.AllInside (·.external = false)) (hsignals : added.signals = [])
  | alters {top : NodeId} {spot : Spot NodeState}
      {change : NodeState → Forest NodeState → NodeState × Forest NodeState} {root : NodeState}
      {members : Forest NodeState} {made : List SignalId}
      (hspot : bench.synth.node? top = some spot)
      (hnodes : next.synth.nodes = bench.synth.nodes.update change top.index)
      (hchange : change spot.item spot.inner = (root, members))
      (hfixed : (cons "" root members nil).map NodeState.fixed = spot.tree.map NodeState.fixed)
      (hbearing : command.turns ≠ some top →
        (cons "" root members nil).map NodeState.bearing = spot.tree.map NodeState.bearing)
      (hmade : bench.design.arch.Gained next.design.arch made)
      (hsignals : (cons "" root members nil).signals.Subperm (made ++ spot.tree.signals))

theorem Changes.of_nodes_eq (h : next.synth.nodes = bench.synth.nodes) :
    Changes bench next command :=
  .adds .nil (h.trans (append_nil _).symm) trivial rfl

-- A change of all nodes from one on down that leaves their signals or takes them.
theorem Changes.of_map {top : NodeId} {spot : Spot NodeState} {f : NodeState → NodeState}
    (hspot : bench.synth.node? top = some spot)
    (hnodes : next.synth.nodes = bench.synth.nodes.update
      (fun state inner => (f state, inner.map f)) top.index)
    (hfixed : ∀ state, (f state).fixed = state.fixed)
    (hbearing : command.turns ≠ some top → ∀ state, (f state).bearing = state.bearing)
    (hsignal : ∀ state, (f state).signal.toList.Sublist state.signal.toList) :
    Changes bench next command := by
  have hsame {α : Type} {g : NodeState → α} (h : ∀ state, g (f state) = g state) :
      (cons "" (f spot.item) (spot.inner.map f) nil).map g = spot.tree.map g := by
    simp only [Spot.tree, map, map_map, h]
  have hkept (forest : Forest NodeState) : (forest.map f).signals.Sublist forest.signals := by
    induction forest with
    | nil => exact List.Sublist.refl _
    | cons name state inner rest ihi ihr =>
        rw [map, signals_cons, signals_cons]
        exact (hsignal state).append (ihi.append ihr)
  exact .alters hspot hnodes rfl (hsame hfixed) (fun hturns => hsame (hbearing hturns)) (.none ..)
    (hkept spot.tree).subperm

theorem exists_added_tryPort (synth : Synthesizer) (template : Template) (first : String)
    (claims : Claims) (port : PortId) :
    ∃ added, (synth.tryPort template first claims port).2.1.nodes = synth.nodes.append added ∧
      added.AllInside (·.external = false) ∧ added.signals = [] := by
  simp only [Synthesizer.tryPort]
  split
  · exact ⟨.nil, (append_nil _).symm, trivial, rfl⟩
  · split
    · rename_i agreed _ root below rest hagreed hnodes
      obtain ⟨side, -, hroot, hbelow⟩ := Match.sided_of_agreed hagreed hnodes ""
      refine ⟨.cons _ root below .nil, rfl, ⟨?_, trivial⟩,
        signals_of_unsigned (Match.unsigned_of_unresolved hroot hbelow _)⟩
      have hinside : (below.map NodeState.unresolved).All (·.external = false) := by
        rw [hbelow, all_map]
        exact all_of_forall (fun _ => rfl) _
      rwa [all_map] at hinside
    · exact ⟨.nil, (append_nil _).symm, trivial, rfl⟩

theorem exists_added_tryPorts (synth : Synthesizer) (template : Template) (first : String)
    (claims : Claims) (ports : List PortId) :
    ∃ added, (synth.tryPorts template first claims ports).2.1.nodes = synth.nodes.append added ∧
      added.AllInside (·.external = false) ∧ added.signals = [] := by
  induction ports generalizing synth claims with
  | nil => exact ⟨.nil, (append_nil _).symm, trivial, rfl⟩
  | cons port rest ih =>
      obtain ⟨added, hadded, hinside, hsignals⟩ :=
        exists_added_tryPort synth template first claims port
      obtain ⟨more, hmore, hinsideMore, hsignalsMore⟩ :=
        ih (synth.tryPort template first claims port).2.1
          (synth.tryPort template first claims port).2.2
      refine ⟨added.append more, ?_, hinside.append hinsideMore, ?_⟩
      · rw [← append_assoc, ← hadded]
        exact hmore
      · rw [signals_append, hsignals, hsignalsMore, List.append_nil]

theorem changes_of_match {top : NodeId} {spot : Spot NodeState} {stem : String}
    (hspot : bench.synth.node? top = some spot)
    (hnodes : next.synth.nodes = (bench.synth.matchByName top stem bench.claims).2.1.nodes)
    (hturns : command.turns = some top) : Changes bench next command := by
  obtain ⟨root, below, -, hkept, hupdate⟩ :=
    Synthesizer.exists_nodes_matchByName hspot stem bench.claims
  have hsignals : (cons "" root below nil).signals = spot.tree.signals :=
    signals_eq_of_map (map_eq_of_map hkept NodeState.signal)
  exact .alters hspot (hnodes.trans hupdate) rfl (map_eq_of_map hkept NodeState.fixed)
    (fun hne => absurd hturns hne) (.none ..) (hsignals ▸ .refl _)

theorem changes_of_materialize {id : NodeId} {stem : String} {signals : List SignalId}
    (h : bench.synth.materialize id stem bench.design = some (signals, next.synth, next.design)) :
    Changes bench next command := by
  simp only [Synthesizer.materialize] at h
  split at h
  · cases h
  · rename_i spot hspot
    have hfixed {a b : Forest NodeState} (h : a.map NodeState.bearing = b.map NodeState.bearing) :
        a.map NodeState.fixed = b.map NodeState.fixed := map_eq_of_map h Prod.fst
    split at h
    · rename_i hleaf
      simp only [Option.some.injEq, Prod.mk.injEq] at h
      obtain ⟨-, hsynth, hdesign⟩ := h
      obtain ⟨made, hmade, hsignal, hbearing⟩ := Backing.leaf_gained id stem spot.item bench.design
      have hsame : (cons "" (Backing.leaf id stem spot.item bench.design).2.1 spot.inner nil).map
          NodeState.bearing = spot.tree.map NodeState.bearing := by
        simp only [Spot.tree, map, hbearing]
      refine .alters hspot (congrArg Synthesizer.nodes hsynth.symm) rfl (hfixed hsame)
        (fun _ => hsame) (hdesign ▸ hmade) ?_
      rw [Spot.tree, signals_cons, signals_cons, hsignal, List.append_assoc]
    · simp only [Option.some.injEq, Prod.mk.injEq] at h
      obtain ⟨-, hsynth, hdesign⟩ := h
      obtain ⟨made, hmade, hsignals, hbearing⟩ := Backing.members_gained bench.synth.separator
        (id.index + 1) stem spot.inner bench.design
      have hsame : (cons "" spot.item (Backing.members bench.synth.separator (id.index + 1) stem
          spot.inner bench.design).2.1 nil).map NodeState.bearing =
            spot.tree.map NodeState.bearing := by
        simp only [Spot.tree, map, hbearing]
      refine .alters hspot (congrArg Synthesizer.nodes hsynth.symm) rfl (hfixed hsame)
        (fun _ => hsame) (hdesign ▸ hmade) ?_
      rw [Spot.tree, signals_cons, signals_cons]
      have hrest := (hsignals.append_right (Forest.nil : Forest NodeState).signals).append_left
        spot.item.signal.toList
      rw [List.append_assoc] at hrest
      exact (hrest.trans (List.perm_append_comm_assoc ..)).subperm

theorem changes_of_perform? {operation : Operation} (h : bench.perform? operation = some next) :
    Changes bench next (.interface operation) := by
  cases operation with
  | instantiate template external source destinations =>
      obtain rfl := Option.some.inj h
      have hmembers {p : NodeState → Prop} (hp : ∀ shape, p (NodeState.ofShape shape)) :
          (template.members.map NodeState.ofShape).All p := by
        rw [all_map]
        exact all_of_forall hp _
      refine .adds _ rfl ⟨hmembers fun _ => rfl, trivial⟩ (signals_of_unsigned ?_)
      exact ⟨rfl, hmembers fun _ => rfl, trivial⟩
  | propagateSource id =>
      obtain ⟨synth, hsynth, rfl⟩ := propagateSource_of_perform? h
      obtain ⟨spot, -, ⟨-, rfl⟩ | ⟨source, other, -, hother, rfl⟩⟩ :=
        Synthesizer.propagateSource_eq_ok hsynth
      · exact .of_nodes_eq rfl
      · refine .alters hother rfl rfl rfl (fun _ => rfl) (.none ..) ?_
        rw [Spot.tree, signals_cons, signals_cons]
        exact .refl _
  | matchByName id stem =>
      obtain ⟨⟨spot, hspot⟩, rfl⟩ := exists_node?_of_guard h
      exact changes_of_match hspot rfl rfl
  | extractAll cls =>
      obtain rfl := Option.some.inj h
      simp only [extract, Synthesizer.extractAll]
      split
      · exact .of_nodes_eq rfl
      · obtain ⟨added, hadded, hinside, hsignals⟩ := exists_added_tryPorts _ _ _ _ _
        exact .adds added hadded hinside hsignals
  | unExtract id =>
      obtain ⟨⟨spot, hspot⟩, rfl⟩ := exists_node?_of_guard h
      refine .of_map (f := Synthesizer.unboundState) hspot ?_ (fun _ => rfl) (fun _ _ => rfl)
        fun _ => List.Sublist.refl _
      simp only [hspot]
      rfl
  | reverse id =>
      obtain ⟨⟨spot, hspot⟩, rfl⟩ := exists_node?_of_guard h
      exact .of_map hspot rfl (fun _ => rfl) (fun hne => absurd rfl hne)
        fun _ => List.Sublist.refl _
  | materialize id stem =>
      obtain ⟨signals, hmade, -⟩ := materialize_of_perform? h
      exact changes_of_materialize hmade
  | detach id connections =>
      obtain ⟨⟨spot, hspot⟩, rfl⟩ := exists_node?_of_guard h
      refine .of_map hspot rfl (fun _ => ?_) (fun _ _ => ?_) fun _ => ?_
      · cases connections <;> rfl
      · cases connections <;> rfl
      · cases connections <;> exact List.nil_sublist _
  | connect | propagate =>
      obtain ⟨hsynth, -⟩ := synth_claims_of_wired? h
      exact .of_nodes_eq (congrArg Synthesizer.nodes hsynth)

theorem changes_of_obey? (h : bench.obey? command = some next) : Changes bench next command := by
  cases command with
  | interface operation => exact changes_of_perform? h
  | type | name | statement | signal =>
      obtain rfl := Option.some.inj h
      exact .of_nodes_eq rfl
  | hidden | process =>
      obtain ⟨⟨_, _⟩, -, rfl⟩ := Option.map_eq_some_iff.mp h
      exact .of_nodes_eq rfl
  | connect | bind | component =>
      obtain ⟨_, -, rfl⟩ := Option.map_eq_some_iff.mp h
      exact .of_nodes_eq rfl

theorem grows_perform? {operation : Operation} (h : bench.perform? operation = some next) :
    bench.design.arch.Grows next.design.arch := by
  cases operation with
  | materialize id stem =>
      obtain ⟨signals, hmade, -⟩ := materialize_of_perform? h
      exact (grows_of_materialize hmade).1
  | connect | propagate => exact grows_of_wired? h
  | instantiate | extractAll =>
      obtain rfl := Option.some.inj h
      exact .refl _
  | matchByName | unExtract | reverse | detach =>
      obtain ⟨-, rfl⟩ := exists_node?_of_guard h
      exact .refl _
  | propagateSource id =>
      obtain ⟨synth, -, rfl⟩ := propagateSource_of_perform? h
      exact .refl _

-- No command takes a signal away.
theorem grows_obey? (h : bench.obey? command = some next) :
    bench.design.arch.Grows next.design.arch := by
  cases command with
  | interface operation => exact grows_perform? h
  | type | name =>
      obtain rfl := Option.some.inj h
      exact .refl _
  | statement =>
      obtain rfl := Option.some.inj h
      exact ⟨rfl, Nat.le_refl _, fun _ hmem => hmem⟩
  | signal name type default =>
      obtain rfl := Option.some.inj h
      exact (bench.design.arch.grows_addSignal ..).1
  | hidden name type origin =>
      obtain ⟨⟨_, arch⟩, harch, rfl⟩ := Option.map_eq_some_iff.mp h
      simp only [Architecture.addHidden?, Option.ite_none_right_eq_some] at harch
      obtain ⟨-, rfl⟩ := Prod.mk.inj (Option.some.inj harch.2)
      exact Architecture.grows_addHidden ..
  | process name sensitivity body =>
      obtain ⟨⟨_, arch⟩, harch, rfl⟩ := Option.map_eq_some_iff.mp h
      simp only [Architecture.addProcess?, Option.ite_none_right_eq_some] at harch
      obtain ⟨-, rfl⟩ := Prod.mk.inj (Option.some.inj harch.2)
      exact Architecture.grows_addProcess ..
  | connect destination source =>
      obtain ⟨arch, harch, rfl⟩ := Option.map_eq_some_iff.mp h
      simp only [Architecture.connect?, Option.ite_none_right_eq_some] at harch
      obtain rfl := Option.some.inj harch.2
      exact Architecture.grows_connect ..
  | bind signal port =>
      obtain ⟨arch, harch, rfl⟩ := Option.map_eq_some_iff.mp h
      simp only [Architecture.bindPort?, Option.ite_none_right_eq_some] at harch
      obtain rfl := Option.some.inj harch.2
      exact (Architecture.grows_bindPort ..).1
  | component component =>
      obtain ⟨arch, harch, rfl⟩ := Option.map_eq_some_iff.mp h
      simp only [Architecture.addComponent?, Option.ite_none_right_eq_some] at harch
      obtain rfl := Option.some.inj harch.2
      exact Architecture.grows_addComponent ..

-- What holds of the nodes of every unit that was built: only the roots of
-- instances are external, and the backing signals are different ones that exist.
structure Standing (bench : Workbench) : Prop where
  inside : bench.synth.nodes.AllInside (·.external = false)
  nodup : bench.synth.nodes.signals.Nodup
  there : ∀ signal ∈ bench.synth.nodes.signals, bench.design.arch.hasSignal signal

theorem Standing.of_obey? (h : bench.Standing) (hnext : bench.obey? command = some next) :
    next.Standing := by
  have hgrows := grows_obey? hnext
  cases changes_of_obey? hnext with
  | adds added hnodes hinside hsignals =>
      have hsame : next.synth.nodes.signals = bench.synth.nodes.signals := by
        rw [hnodes, signals_append, hsignals, List.append_nil]
      refine ⟨hnodes ▸ h.inside.append hinside, hsame ▸ h.nodup, fun signal hmem => ?_⟩
      exact hgrows.hasSignal (h.there signal (hsame ▸ hmem))
  | @alters top spot change root members made hspot hnodes hchange hfixed _ hmade hsignals =>
      have hframe : next.synth.nodes.map NodeState.fixed = bench.synth.nodes.map NodeState.fixed :=
        (congrArg _ hnodes).trans (map_update_eq hspot hchange hfixed)
      have hinside : (next.synth.nodes.map NodeState.fixed).AllInside (·.2 = false) := by
        rw [hframe, allInside_map]
        exact h.inside
      have hall : next.synth.nodes.signals.Subperm (made ++ bench.synth.nodes.signals) := by
        obtain ⟨front, back, heq, hupdate⟩ := exists_signals_update hspot
        rw [hnodes, hupdate, hchange, heq]
        have hplace : (front ++ (made ++ spot.tree.signals) ++ back).Perm
            (made ++ (front ++ spot.tree.signals ++ back)) := by
          simp only [List.append_assoc]
          exact List.perm_append_comm_assoc ..
        exact (((List.subperm_append_left front).mpr hsignals).append (.refl back)).trans
          hplace.subperm
      have hnodup : (made ++ bench.synth.nodes.signals).Nodup :=
        List.nodup_append'.mpr ⟨hmade.nodup, h.nodup,
          fun signal hnew hold => hmade.new signal hnew (h.there signal hold)⟩
      refine ⟨(allInside_map ..).mp hinside, ?_, fun signal hmem => ?_⟩
      · obtain ⟨kept, hperm, hsublist⟩ := hall
        exact hperm.nodup_iff.mp (hnodup.sublist hsublist)
      · rcases List.mem_append.mp (hall.subset hmem) with hnew | hold
        · exact hmade.there signal hnew
        · exact hgrows.hasSignal (h.there signal hold)

-- The signal of a node is one that exists.
theorem Standing.hasSignal (h : bench.Standing) {state : NodeState} {signal : SignalId}
    (hstate : state ∈ bench.synth.nodes.items) (hsignal : state.signal = some signal) :
    bench.design.arch.hasSignal signal :=
  h.there signal (List.mem_filterMap.mpr ⟨state, hstate, hsignal⟩)

theorem standing_of_building {allowed : Workbench → Command → Prop} {design : Design}
    {separator : String} {ports : List (String × Direction)}
    (h : Building allowed (unclaimedPorts design separator ports) bench) : bench.Standing := by
  induction h with
  | start => exact ⟨trivial, List.nodup_nil, nofun⟩
  | step h hallowed hnext ih => exact ih.of_obey? hnext

end Workbench

end Rtl
