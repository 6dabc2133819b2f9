import Rtl.Proofs.Interface.Maximality
import Rtl.Proofs.Interface.Templates
import Rtl.Proofs.Interface.Wires

namespace Rtl

open Forest

-- An instance that extraction found, as a whole: bound and of one side, and else
-- as it was made from its template.
structure Instance (arch : Architecture) (template : Template) (agreeing side : Side) (made : Bool)
    (spot : Spot NodeState) : Prop where
  above : spot.above = []
  sided : (cons spot.name spot.item spot.inner nil).Sided (·.Backed arch agreeing made) side
  root : spot.item.fixed = (.output, true)
  members : spot.inner.map NodeState.fixed =
    template.members.map fun shape => (shape.masterDirection, false)

namespace Instance

variable {arch now : Architecture} {template : Template} {agreeing side : Side} {made : Bool}
  {spot : Spot NodeState}

theorem side_eq (h : Instance arch template agreeing side made spot) : spot.item.side = side :=
  h.sided.side_eq (congrArg Prod.fst h.root)

theorem grows (hgrows : arch.Grows now) (h : Instance arch template agreeing side made spot) :
    Instance now template agreeing side made spot :=
  { h with sided := h.sided.imp fun _ hleaf => hleaf.grows hgrows }

theorem reverse (h : Instance arch template agreeing side made spot) :
    Instance arch template agreeing.opposite side.opposite made
      ⟨[], spot.name, Synthesizer.reverseState spot.item,
        spot.inner.map Synthesizer.reverseState⟩ where
  above := rfl
  sided := h.sided.reverse fun _ hleaf => hleaf.reverse
  root := h.root
  members := by
    rw [map_map]
    exact h.members

theorem distinct (h : Instance arch template agreeing side made spot)
    (htemplate : template.members.Distinct) : spot.inner.Distinct := by
  rwa [← distinct_map NodeState.fixed, h.members, distinct_map]

theorem all (h : Instance arch template agreeing side made spot) (htemplate : template.Directed) :
    spot.inner.All fun state => state.masterDirection ≠ .inout ∧ state.external = false := by
  have hfixed : (spot.inner.map NodeState.fixed).All fun f => f.1 ≠ .inout ∧ f.2 = false := by
    rw [h.members, all_map]
    simpa only [and_true, Template.Directed] using htemplate
  rwa [all_map] at hfixed

-- The paths to the leaves are those of the template.
theorem paths (h : Instance arch template agreeing side made spot) :
    spot.leaves.map (·.1) =
      (⟨[], "", ⟨.output, 0⟩, template.members⟩ : Spot Shape).leaves.map (·.1) := by
  have hmembers := h.members
  simp only [Spot.leaves]
  cases hinner : spot.inner with
  | nil =>
      rw [hinner] at hmembers
      cases htemplate : template.members with
      | nil => rfl
      | cons =>
          rw [htemplate] at hmembers
          cases hmembers
  | cons =>
      rw [hinner] at hmembers
      cases htemplate : template.members with
      | nil =>
          rw [htemplate] at hmembers
          cases hmembers
      | cons =>
          rw [htemplate] at hmembers
          have hleaves := congrArg (fun forest => (forest.leaves []).map (·.1)) hmembers
          simp only [leaves_map, List.map_map] at hleaves
          exact hleaves

theorem nodup_paths (h : Instance arch template agreeing side made spot)
    (htemplate : template.members.Distinct) : (spot.leaves.map (·.1)).Nodup := by
  have hinner := nodup_leaves (h.distinct htemplate) []
  simp only [Spot.leaves]
  split
  · exact List.nodup_singleton _
  · exact hinner

end Instance

namespace Backing

-- Signals for all leaves of an instance.
theorem instance_leaf {arch : Architecture} {template : Template} {agreeing side : Side}
    {made : Bool} {spot : Spot NodeState} (h : Instance arch template agreeing side made spot)
    (hinner : spot.inner = nil) {id : NodeId} {stem : String} {design : Design}
    (harch : design.arch = arch) :
    Instance (leaf id stem spot.item design).2.2.arch template agreeing side true
      ⟨[], spot.name, (leaf id stem spot.item design).2.1, nil⟩ := by
  obtain ⟨habove, hsided, hroot, hmembers⟩ := h
  subst harch
  rw [hinner] at hsided hmembers
  cases hsided with
  | leaf _ hside hleaf hrest =>
      obtain ⟨hbacked, hkept, hfixed⟩ := backed_leaf id stem hleaf
      exact ⟨rfl, .leaf _ (hkept.trans hside) hbacked (.nil _), hfixed.trans hroot, hmembers⟩

theorem instance_members {arch : Architecture} {template : Template} {agreeing side : Side}
    {made : Bool} {spot : Spot NodeState} (h : Instance arch template agreeing side made spot)
    (hinner : spot.inner ≠ nil) {separator stem : String} {id : Nat} {design : Design}
    (harch : design.arch = arch) :
    Instance (members separator id stem spot.inner design).2.2.arch template agreeing side true
      ⟨[], spot.name, spot.item, (members separator id stem spot.inner design).2.1⟩ := by
  obtain ⟨above, name, item, inner⟩ := spot
  obtain ⟨habove, hsided, hroot, hmembers⟩ := h
  subst harch
  cases hsided with
  | leaf => exact absurd rfl hinner
  | nested _ hside hwithin hrest =>
      obtain ⟨hbacked, hframe⟩ := backed_members separator id stem hwithin (.refl _)
      refine ⟨rfl, ?_, hroot, hframe.trans hmembers⟩
      generalize (members separator id stem _ design).2.1 = nodes at hbacked hframe ⊢
      cases nodes with
      | nil => cases hframe
      | cons => exact .nested name hside hbacked (.nil _)

end Backing

namespace Match

theorem exists_agreed_fresh {template : Template} {id : NodeId} {stem : String} {claims : Claims}
    {agreed : List Bool} (h : (fresh template true none [] id stem claims).agreed = .ok agreed) :
    ∃ agrees, agreed = [agrees] := by
  obtain ⟨later, last, hmatched⟩ : ∃ later last, Matched id.index stem
      (.cons "" (template.instantiate true none []).1 (template.instantiate true none []).2 .nil)
      claims agreed later last := ⟨_, _, matched_of_agreed h⟩
  generalize (template.instantiate true none []).2 = inner at hmatched
  cases hmatched with
  | leaf _ _ hrest | nested _ _ hrest =>
      cases hrest
      exact ⟨_, rfl⟩

variable {template : Template} {id : NodeId} {stem : String} {claims : Claims} {agreed : List Bool}
  {found : String} {root : NodeState} {below rest : Forest NodeState}

-- A match of a fresh instance that succeeds binds all of it, on one side. Nothing
-- else changes.
theorem sided_of_agreed
    (h : (fresh template true none [] id stem claims).agreed = .ok agreed)
    (hnodes : (fresh template true none [] id stem claims).nodes = .cons found root below rest)
    (name : String) :
    ∃ side, (cons name root below nil).Sided (·.Bound claims.direction? .master) side ∧
      root.unresolved = (template.instantiate true none []).1.unresolved ∧
      below.map NodeState.unresolved = template.members.map NodeState.ofShape := by
  obtain ⟨agrees, rfl⟩ := exists_agreed_fresh h
  obtain ⟨side, hside⟩ : ∃ side, agrees = (side == Side.master) := by
    cases agrees with
    | true => exact ⟨.master, rfl⟩
    | false => exact ⟨.slave, rfl⟩
  have hsides : ∀ other ∈ [agrees], other = (side == Side.master) := by simpa using hside
  have hmatched := (matched_of_agreed h).sided hsides
  rw [show (members _ _ _ _).nodes = _ from hnodes] at hmatched
  obtain ⟨hsided, hkept⟩ := hmatched
  obtain ⟨rfl, hroot, hbelow, hrest⟩ := Forest.cons.inj hkept
  obtain rfl : rest = nil := by
    cases rest with
    | nil => rfl
    | cons => cases hrest
  refine ⟨side, hsided.rename name, hroot, ?_⟩
  rw [hbelow]
  exact map_map NodeState.ofShape NodeState.unresolved template.members

-- It has no signals yet.
theorem unsigned_of_unresolved
    (hroot : root.unresolved = (template.instantiate true none []).1.unresolved)
    (hbelow : below.map NodeState.unresolved = template.members.map NodeState.ofShape)
    (name : String) : (cons name root below nil).All (·.signal = none) := by
  refine ⟨congrArg NodeState.signal hroot, ?_, trivial⟩
  have hall : (below.map NodeState.unresolved).All (·.signal = none) := by
    rw [hbelow, all_map]
    exact all_of_forall (fun _ => rfl) _
  rwa [all_map] at hall

theorem instance_of_agreed {arch : Architecture}
    (hdirection : claims.direction? = arch.portDirection?)
    (h : (fresh template true none [] id stem claims).agreed = .ok agreed)
    (hnodes : (fresh template true none [] id stem claims).nodes = .cons found root below rest)
    (name : String) :
    ∃ side, Instance arch template .master side false ⟨[], name, root, below⟩ := by
  obtain ⟨side, hsided, hroot, hbelow⟩ := sided_of_agreed h hnodes name
  have hfixed (state : NodeState) : state.fixed = (state.unresolved).fixed := rfl
  refine ⟨side, rfl, ?_, ?_, ?_⟩
  · exact hsided.imp_of_all (unsigned_of_unresolved hroot hbelow name)
      fun _ hbound hnone => hbound.backed hdirection hnone
  · rw [hfixed, hroot]
    rfl
  · have hframe := congrArg (fun forest => forest.map NodeState.fixed) hbelow
    simp only [map_map] at hframe
    exact hframe

end Match

namespace Wiring

variable {arch : Architecture} {template : Template} {target origin : Spot NodeState}

-- The slave of two instances of a template is driven by the master, leaf by leaf.
theorem exists_links_of_instances (htarget : Instance arch template .slave .slave true target)
    (horigin : Instance arch template .slave .master true origin)
    (hdistinct : template.members.Distinct) (hdirected : template.Directed)
    (hports : ∀ port, arch.portDirection? port ≠ some .inout) :
    ∃ links, nodes (.ofSpot target) (.ofSpot origin) = ⟨links, .none⟩ ∧
      List.Forall₂ (fun (x, y) => Joined arch x y) (target.leaves.zip origin.leaves) links := by
  have hfixed := htarget.members.trans horigin.members.symm
  have hside := htarget.side_eq
  have hall := htarget.all hdirected
  have hlevels := htarget.distinct hdistinct
  obtain ⟨-, hsided, hroot, -⟩ := htarget
  obtain ⟨-, hsided', hroot', -⟩ := horigin
  obtain ⟨above, name, item, inner⟩ := target
  obtain ⟨above', name', item', inner'⟩ := origin
  cases hsided with
  | leaf _ _ hleaf =>
      cases hsided' with
      | nested => cases hfixed
      | leaf _ hside' hleaf' =>
          have hout : item.masterDirection = .output := congrArg Prod.fst hroot
          have hout' : item'.masterDirection = .output := congrArg Prod.fst hroot'
          obtain ⟨driven, hdriven, hon, -⟩ := isOn_of_backed hleaf hports (by simp [hout])
          obtain ⟨driving, hdriving, -, hon'⟩ := isOn_of_backed hleaf' hports (by simp [hout'])
          refine ⟨[⟨driven, driving⟩], ?_, .cons ⟨rfl, .inl ⟨hdriven, hdriving⟩, ?_, ?_⟩ .nil⟩
          · rw [nodes_of_leaf rfl]
            exact leaf_of_signals (.inr hside) hdriven hdriving
          · exact hon (by rw [flow?, hside, hout])
          · exact hon' (by rw [flow?, hside', hout'])
  | nested _ _ hinner =>
      cases hsided' with
      | leaf => cases hfixed
      | nested _ hside' hinner' =>
          have hout : item'.masterDirection = .output := congrArg Prod.fst hroot'
          have hopposite : item'.side = Side.slave.opposite := by
            rw [hside', hout]
            rfl
          obtain ⟨links, hlinks, hjoined⟩ := exists_links (hside ▸ hinner) (hopposite ▸ hinner')
            hfixed hlevels hall hports
          refine ⟨links, ?_, hjoined []⟩
          rw [nodes_of_members rfl]
          exact (hlinks _ _).1 fun _ _ => rfl

end Wiring

end Rtl
