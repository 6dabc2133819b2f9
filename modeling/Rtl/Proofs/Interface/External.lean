import Rtl.Proofs.Interface.Standing
import Rtl.Proofs.Interface.Steps

namespace Rtl

open Forest

namespace Forest

variable {α : Type} {p : α → Prop} {forest : Forest α}

theorem All.and {q : α → Prop} (h : forest.All p) (hq : forest.All q) :
    forest.All fun item => p item ∧ q item := by
  rw [all_iff_forall_mem_items] at h hq ⊢
  exact fun item hmem => ⟨h item hmem, hq item hmem⟩

theorem All.of_find? {wanted : String} {item : α} {inner : Forest α} (h : forest.All p)
    (hfound : forest.find? wanted = some (item, inner)) : p item ∧ inner.All p := by
  induction forest with
  | nil => cases hfound
  | cons name first below rest _ ih =>
      obtain ⟨hfirst, hbelow, hrest⟩ := h
      rw [find?] at hfound
      split at hfound
      · obtain ⟨rfl, rfl⟩ := Prod.mk.inj (Option.some.inj hfound)
        exact ⟨hfirst, hbelow⟩
      · exact ih hrest hfound

-- Nodes that have a signal in common are one node.
theorem eq_of_mem_signals {nodes : Forest NodeState} {a b : NodeState} {signal : SignalId}
    (h : nodes.signals.Nodup) (ha : a ∈ nodes.items) (hb : b ∈ nodes.items)
    (hsignal : a.signal = some signal) (hother : b.signal = some signal) : a = b := by
  by_contra hne
  have hapart := List.pairwise_filterMap.mp h
  have hsymm : Std.Symm fun x y : NodeState => ∀ s, x.signal = some s → ∀ s', y.signal = some s' →
      s ≠ s' := ⟨fun x y hxy s hs s' hs' heq => hxy s' hs' s hs heq.symm⟩
  exact hapart.forall ha hb hne signal hsignal signal hother rfl

end Forest

namespace Wiring

-- A step that drives a leaf of the given kind, or cannot be made for want of a
-- member or of a direction.
def Step.Inside (p : NodeState → Prop) : Step → Prop
  | .drive leaf _ => p leaf.state
  | .stuck cause => ∀ name, cause ≠ .externalMaster name

-- Unless the destination is itself a leaf, all that is driven is below one of the
-- two ends.
theorem inside_steps {p : NodeState → Prop} {destination source : Endpoint}
    (hdestination : destination.members.All p) (hsource : source.members.All p) :
    destination.members = .nil ∨ ∀ step ∈ steps destination source, step.Inside p := by
  induction destination, source using fun motive => steps.induct motive
      (fun destination remaining source => remaining.All p → source.members.All p →
        ∀ step ∈ memberSteps destination remaining source, step.Inside p) with
  | case1 destination source hleaf => exact .inl hleaf
  | case2 destination source name state inner rest hmembers ih =>
      refine .inr ?_
      rw [steps_of_members hmembers]
      exact ih (hmembers ▸ hdestination) hsource
  | case3 destination source _ _ step hstep =>
      rw [memberSteps] at hstep
      cases hstep
  | case4 destination source name state inner rest member hforward hbackward ih hremaining hsource
      step hstep =>
      obtain ⟨hstate, hinner, hrest⟩ := hremaining
      cases hfound : source.members.find? name with
      | none =>
          rw [memberSteps_of_missing hfound] at hstep
          rcases List.mem_cons.mp hstep with rfl | hlater
          · intro name heq
            cases heq
          · exact ih hrest hsource step hlater
      | some entry =>
          obtain ⟨other, below⟩ := entry
          obtain ⟨hother, hbelow⟩ := hsource.of_find? hfound
          rw [memberSteps_of_find? hfound] at hstep
          rcases List.mem_append.mp hstep with hjoin | hlater
          · -- Whichever of the two is driven here, it is a member, and so is all inside it.
            have hsteps {a b : Endpoint} (ha : p a.state)
                (h : a.members = .nil ∨ ∀ step ∈ steps a b, step.Inside p)
                (hmem : step ∈ steps a b) : step.Inside p := by
              rcases h with hleaf | hall
              · rw [steps_of_leaf hleaf, List.mem_singleton] at hmem
                exact hmem ▸ ha
              · exact hall step hmem
            rw [joinSteps] at hjoin
            split at hjoin
            · exact hsteps hstate (hforward other below hfound hinner hbelow) hjoin
            · exact hsteps hother (hbackward other below hfound hbelow hinner) hjoin
            · rw [List.mem_singleton] at hjoin
              subst hjoin
              intro name heq
              cases heq
          · exact ih hrest hsource step hlater

variable {destination source : Endpoint}

-- What a step assigns goes to the signal of its leaf, which is no master side of
-- the unit.
theorem leaf_eq_link {link : Connection} (h : leaf destination source.backing = ⟨[link], .none⟩) :
    destination.state.signal = some link.destination ∧
      (destination.state.external → destination.state.side = .slave) := by
  simp only [leaf, Endpoint.backing] at h
  split at h
  · cases h
  · rename_i hguard
    cases hdriven : destination.state.signal with
    | none => simp [hdriven, fail] at h
    | some driven =>
        cases hdriving : source.state.signal with
        | none => simp [hdriven, hdriving, fail] at h
        | some driving =>
            simp only [hdriven, hdriving, mk.injEq, List.cons.injEq, and_true] at h
            refine ⟨by rw [← h], fun hexternal => ?_⟩
            simpa [hexternal] using hguard

theorem error_leaf_iff {name : String} :
    (leaf destination source.backing).error = some (.misconfigured (.externalMaster name)) ↔
      destination.state.external = true ∧ destination.state.side = .master ∧
        name = destination.name := by
  simp only [leaf, Endpoint.backing]
  split
  · rename_i hguard
    have hmaster : destination.state.external = true ∧ destination.state.side = .master := by
      revert hguard
      cases destination.state.external <;> cases destination.state.side <;> simp
    simp only [fail, Option.some.injEq, InterfaceError.misconfigured.injEq,
      Misconfigured.externalMaster.injEq, hmaster, true_and]
    exact eq_comm
  · rename_i hguard
    have hnot : ¬ (destination.state.external = true ∧ destination.state.side = .master) := by
      rintro ⟨hexternal, hside⟩
      simp [hexternal, hside] at hguard
    rw [← and_assoc, iff_false_right fun h => hnot h.1]
    cases destination.state.signal <;> cases source.state.signal <;> simp [fail]

end Wiring

namespace Workbench

variable {bench : Workbench} {destination source : NodeId} {target origin : Spot NodeState}

-- A step between two nodes drives the first of them, which is then a leaf, or
-- takes place at members, which are never external.
theorem Standing.step_cases (h : bench.Standing)
    (htarget : bench.synth.node? destination = some target)
    (horigin : bench.synth.node? source = some origin) {step : Wiring.Step}
    (hstep : step ∈ Wiring.steps (.ofSpot target) (.ofSpot origin)) :
    (target.inner = .nil ∧ step = .drive (.ofSpot target) (.ofSpot origin)) ∨
      step.Inside fun state => state.external = false ∧ state ∈ bench.synth.nodes.items := by
  have hdestination : (Endpoint.ofSpot target).members.All fun state =>
      state.external = false ∧ state ∈ bench.synth.nodes.items :=
    (h.inside.of_spot? htarget).2.and (mem_items_of_spot? htarget).2
  have hsource : (Endpoint.ofSpot origin).members.All fun state =>
      state.external = false ∧ state ∈ bench.synth.nodes.items :=
    (h.inside.of_spot? horigin).2.and (mem_items_of_spot? horigin).2
  rcases Wiring.inside_steps hdestination hsource with hleaf | hall
  · rw [Wiring.steps_of_leaf hleaf, List.mem_singleton] at hstep
    exact .inl ⟨hleaf, hstep⟩
  · exact .inr (hall step hstep)

-- What is driven from inside is no external master. The mark of an external
-- instance is on its root, so it counts for instances without members: connecting
-- to one that is a master fails. The members of other instances carry no mark,
-- and none of them is refused for being external.
theorem undriven_external {allowed : Workbench → Command → Prop} {design : Design}
    {separator : String} {ports : List (String × Direction)}
    (h : Building allowed (unclaimedPorts design separator ports) bench)
    (htarget : bench.synth.node? destination = some target)
    (horigin : bench.synth.node? source = some origin) :
    (∀ link ∈ (bench.synth.wiring destination source).links, ∀ id leaf,
      bench.synth.node? id = some leaf → leaf.item.signal = some link.destination →
        leaf.item.external = true → leaf.item.side = .slave) ∧
    (∀ name, (bench.synth.wiring destination source).error =
        some (.misconfigured (.externalMaster name)) ↔
      target.above = [] ∧ target.inner = .nil ∧ target.item.external = true ∧
        target.item.side = .master ∧ name = target.name) := by
  have hstanding := standing_of_building h
  rw [wiring_ofSpot htarget horigin]
  constructor
  · intro link hlink id leaf hleaf hsignal hexternal
    obtain ⟨step, hstep, hmade⟩ := Wiring.exists_step_of_mem_links hlink
    cases step with
    | stuck cause => cases hmade
    | drive driven driving =>
        obtain ⟨hdriven, hallowed⟩ := Wiring.leaf_eq_link hmade
        have hmem : driven.state ∈ bench.synth.nodes.items := by
          rcases hstanding.step_cases htarget horigin hstep with ⟨-, heq⟩ | hinside
          · obtain ⟨rfl, -⟩ := Wiring.Step.drive.inj heq
            exact (mem_items_of_spot? htarget).1
          · exact hinside.2
        -- The node is the one that was driven, since no other has this signal.
        have hsame := eq_of_mem_signals hstanding.nodup (mem_items_of_spot? hleaf).1 hmem hsignal
          hdriven
        rw [hsame] at hexternal ⊢
        exact hallowed hexternal
  · intro name
    constructor
    · intro herror
      obtain ⟨step, hstep, hfail⟩ := Wiring.exists_step_of_error herror
      rcases hstanding.step_cases htarget horigin hstep with ⟨hleaf, rfl⟩ | hinside
      · obtain ⟨hexternal, hmaster, hname⟩ :=
          Wiring.error_leaf_iff.mp (congrArg Wiring.error hfail)
        refine ⟨?_, hleaf, hexternal, hmaster, hname⟩
        by_contra habove
        have hinternal := (hstanding.inside.of_spot? htarget).1 habove
        exact Bool.false_ne_true (hinternal.symm.trans hexternal)
      · cases step with
        | drive driven driving =>
            have hexternal := (Wiring.error_leaf_iff.mp (congrArg Wiring.error hfail)).1
            rw [hinside.1] at hexternal
            cases hexternal
        | stuck cause =>
            cases hfail
            exact absurd rfl (hinside name)
    · rintro ⟨-, hleaf, hexternal, hmaster, rfl⟩
      rw [Wiring.steps_of_leaf hleaf, Wiring.run_singleton]
      exact Wiring.error_leaf_iff.mpr ⟨hexternal, hmaster, rfl⟩

-- A single signal out of the unit, and one inside it.
def withLamp : Workbench :=
  (noInterfaces.obeyAll? ([.instantiate ⟨"lamp", .nil⟩ true none [],
    .instantiate ⟨"lamp", .nil⟩ false none [], .materialize ⟨0⟩ "out",
    .materialize ⟨1⟩ "in"].map .interface)).get (by decide +kernel)

theorem undriven_external_lamp :
    ∃ target origin, Building (fun _ _ => True) noInterfaces withLamp ∧
      withLamp.synth.node? ⟨0⟩ = some target ∧ withLamp.synth.node? ⟨1⟩ = some origin ∧
      (withLamp.synth.wiring ⟨0⟩ ⟨1⟩).error = some (.misconfigured (.externalMaster "lamp")) ∧
      (∀ link ∈ (withLamp.synth.wiring ⟨0⟩ ⟨1⟩).links, ∀ id leaf,
        withLamp.synth.node? id = some leaf → leaf.item.signal = some link.destination →
          leaf.item.external = true → leaf.item.side = .slave) ∧
      (∀ name, (withLamp.synth.wiring ⟨0⟩ ⟨1⟩).error =
          some (.misconfigured (.externalMaster name)) ↔
        target.above = [] ∧ target.inner = .nil ∧ target.item.external = true ∧
          target.item.side = .master ∧ name = target.name) := by
  have hbuilding : Building (fun _ _ => True) noInterfaces withLamp :=
    building_obeyAll? .start (Option.some_get _).symm
  have htarget : (withLamp.synth.node? ⟨0⟩).isSome := by decide +kernel
  have horigin : (withLamp.synth.node? ⟨1⟩).isSome := by decide +kernel
  obtain ⟨target, htarget⟩ := Option.isSome_iff_exists.mp htarget
  obtain ⟨origin, horigin⟩ := Option.isSome_iff_exists.mp horigin
  exact ⟨target, origin, hbuilding, htarget, horigin, by decide +kernel,
    undriven_external hbuilding htarget horigin⟩

-- A handshake into the unit and one out of it.
def relayPorts : Design :=
  let (entity, design) := addPorts ⟨.empty, .empty, .ofEntity ⟨0⟩ (.ofName ⟨0⟩)⟩ (.ofName ⟨0⟩)
    [⟨"s_valid", .input, 1⟩, ⟨"s_ready", .output, 1⟩, ⟨"m_valid", .output, 1⟩,
      ⟨"m_ready", .input, 1⟩]
  { design with arch := .ofEntity ⟨0⟩ entity }

-- Both are seen from inside.
def withRelay : Workbench :=
  ((unclaimedPorts relayPorts "_" relayPorts.portNames).obeyAll?
    ([.extractAll handshake, .reverse ⟨0⟩, .reverse ⟨3⟩, .materialize ⟨0⟩ "s",
      .materialize ⟨3⟩ "m"].map .interface)).get (by decide +kernel)

-- The master that is driven here is a member of an external instance.
theorem wiring_of_relay :
    Building (fun _ _ => True) (unclaimedPorts relayPorts "_" relayPorts.portNames) withRelay ∧
    (withRelay.synth.node? ⟨0⟩).map (·.item.external) = some true ∧
    withRelay.synth.Covers ⟨0⟩ ⟨2⟩ ∧
    (withRelay.synth.node? ⟨2⟩).map (fun leaf =>
      (leaf.inner, leaf.item.side, leaf.item.signal)) = some (.nil, .master, some ⟨1⟩) ∧
    withRelay.synth.wiring ⟨3⟩ ⟨0⟩ = ⟨[⟨⟨2⟩, ⟨0⟩⟩, ⟨⟨1⟩, ⟨3⟩⟩], none⟩ :=
  ⟨building_obeyAll? .start (Option.some_get _).symm, by decide +kernel⟩

end Workbench

end Rtl
