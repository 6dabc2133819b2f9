import Rtl.Proofs.Interface.Abandoned
import Rtl.Proofs.Interface.Backings
import Rtl.Proofs.Interface.Purposes

namespace Rtl

open Forest

-- What of a node concerns its backing signal.
def NodeState.backing (state : NodeState) : Option SignalId × Nat := (state.signal, state.width)

namespace Forest

variable {α β : Type} {p q : Nat → α → Prop} {forest front back : Forest α} {first index : Nat}
  {spot : Spot α}

-- What holds of every entry and its number. The number of the first entry is given.
def AllFrom (p : Nat → α → Prop) : Nat → Forest α → Prop
  | _, nil => True
  | first, cons _ item inner rest =>
      p first item ∧ inner.AllFrom p (first + 1) ∧ rest.AllFrom p (first + 1 + inner.size)

theorem AllFrom.append (hfront : front.AllFrom p first)
    (hback : back.AllFrom p (first + front.size)) : (front.append back).AllFrom p first := by
  induction front generalizing first with
  | nil => exact hback
  | cons name item inner rest _ ih =>
      refine ⟨hfront.1, hfront.2.1, ih hfront.2.2 ?_⟩
      have hsize : first + 1 + inner.size + rest.size = first + (1 + inner.size + rest.size) := by
        omega
      exact hsize ▸ hback

theorem AllFrom.imp (h : forest.AllFrom p first) (himp : ∀ number item, p number item →
    q number item) : forest.AllFrom q first := by
  induction forest generalizing first with
  | nil => trivial
  | cons name item inner rest ihi ihr => exact ⟨himp _ _ h.1, ihi h.2.1, ihr h.2.2⟩

theorem All.allFrom {r : α → Prop} (h : forest.All r) (himp : ∀ number item, r item →
    p number item) : forest.AllFrom p first := by
  induction forest generalizing first with
  | nil => trivial
  | cons name item inner rest ihi ihr => exact ⟨himp _ _ h.1, ihi h.2.1, ihr h.2.2⟩

theorem AllFrom.of_map {f : α → β} {other : Forest α} (h : forest.AllFrom p first)
    (hmap : other.map f = forest.map f)
    (hsame : ∀ number a b, f b = f a → p number a → p number b) : other.AllFrom p first := by
  induction forest generalizing other first with
  | nil =>
      cases other with
      | nil => trivial
      | cons => cases hmap
  | cons name item inner rest ihi ihr =>
      cases other with
      | nil => cases hmap
      | cons name' item' inner' rest' =>
          obtain ⟨-, hitem, hinner, hrest⟩ := Forest.cons.inj hmap
          have hsize : inner'.size = inner.size := by
            rw [← size_map f inner', hinner, size_map]
          exact ⟨hsame _ _ _ hitem h.1, ihi h.2.1 hinner, hsize ▸ ihr h.2.2 hrest⟩

theorem AllFrom.of_spot? (h : forest.AllFrom p first) (hspot : forest.spot? index = some spot) :
    p (first + index) spot.item ∧ spot.inner.AllFrom p (first + index + 1) := by
  induction hspot using spot?_induction generalizing first with
  | here name item inner rest => exact ⟨h.1, h.2.1⟩
  | within name item inner rest index spot hspot ih =>
      have hindex : first + 1 + index = first + (index + 1) := by omega
      exact hindex ▸ ih h.2.1
  | later name item inner rest index spot hspot ih =>
      have hindex : first + 1 + inner.size + index = first + (index + 1 + inner.size) := by omega
      exact hindex ▸ ih h.2.2

-- A change at one entry and those inside it.
theorem AllFrom.update {p : Nat → NodeState → Prop} {forest : Forest NodeState}
    {spot : Spot NodeState} {change : NodeState → Forest NodeState → NodeState × Forest NodeState}
    (h : forest.AllFrom p first) (hspot : forest.spot? index = some spot)
    (hsize : (change spot.item spot.inner).2.size = spot.inner.size)
    (hroot : p (first + index) (change spot.item spot.inner).1)
    (hbelow : (change spot.item spot.inner).2.AllFrom p (first + index + 1)) :
    (forest.update change index).AllFrom p first := by
  induction hspot using spot?_induction generalizing first with
  | here name item inner rest => exact ⟨hroot, hbelow, hsize.symm ▸ h.2.2⟩
  | within name item inner rest index spot hspot ih =>
      have hindex : first + (index + 1) = first + 1 + index := by omega
      rw [hindex] at hroot hbelow
      rw [update_within hspot]
      exact ⟨h.1, ih h.2.1 hsize hroot hbelow, (size_update_of_spot? hspot hsize).symm ▸ h.2.2⟩
  | later name item inner rest index spot hspot ih =>
      have hindex : first + (index + 1 + inner.size) = first + 1 + inner.size + index := by omega
      rw [hindex] at hroot hbelow
      rw [update_rest]
      exact ⟨h.1, h.2.1, ih h.2.2 hsize hroot hbelow⟩

theorem all_unsigned_of_signals {forest : Forest NodeState} (h : forest.signals = []) :
    forest.All (·.signal = none) := by
  rw [all_iff_forall_mem_items]
  exact List.filterMap_eq_nil_iff.mp h

end Forest

namespace Design

variable {design before now last : Design} {id : Nat} {state : NodeState}

structure KeepsPurposes (before now : Design) : Prop where
  arch : before.arch.KeepsPurposes now.arch
  types : before.types.GrowsTo now.types

theorem KeepsPurposes.refl (design : Design) : design.KeepsPurposes design := ⟨.refl _, .refl _⟩

theorem KeepsPurposes.trans (h : before.KeepsPurposes now) (hnext : now.KeepsPurposes last) :
    before.KeepsPurposes last := ⟨h.arch.trans hnext.arch, h.types.trans hnext.types⟩

-- The signal of a node, if it has one, is tagged with this node, and its type is the
-- one that stands for the width of the node.
def Tags (design : Design) (id : Nat) (state : NodeState) : Prop :=
  ∀ signal, state.signal = some signal → ∃ entry, design.arch.signals.get? signal = some entry ∧
    entry.leaf = some ⟨id⟩ ∧ design.types.ofWidth state.width = (entry.type, design.types)

theorem tags_of_unsigned (design : Design) (id : Nat) (h : state.signal = none) :
    design.Tags id state := by
  intro signal hsignal
  rw [h] at hsignal
  cases hsignal

theorem Tags.of_backing {other : NodeState} (hsame : other.backing = state.backing)
    (h : design.Tags id state) : design.Tags id other := by
  obtain ⟨hsignal, hwidth⟩ := Prod.mk.inj hsame
  intro signal hother
  rw [hwidth]
  exact h signal (hsignal.symm.trans hother)

theorem Tags.keeps (h : before.Tags id state) (hkeeps : before.KeepsPurposes now) :
    now.Tags id state := by
  intro signal hsignal
  obtain ⟨entry, hentry, hleaf, htype⟩ := h signal hsignal
  obtain ⟨found, hfound, hsame⟩ := hkeeps.arch.exists_signal signal entry hentry
  obtain ⟨htypes, hleaves⟩ := Prod.mk.inj hsame
  refine ⟨found, hfound, hleaves.trans hleaf, ?_⟩
  rw [htypes]
  exact TypeTable.ofWidth_of_growsTo hkeeps.types htype

end Design

namespace Backing

open Design

-- A new signal is tagged before it is put on a port.
theorem tags_leaf (id : NodeId) (name : String) {state : NodeState} {design : Design}
    (h : design.Tags id.index state) :
    design.KeepsPurposes (leaf id name state design).2.2 ∧
      (leaf id name state design).2.2.Tags id.index (leaf id name state design).2.1 := by
  cases hsignal : state.signal with
  | some signal =>
      rw [leaf_of_signal id name hsignal]
      exact ⟨.refl design, h⟩
  | none =>
      obtain ⟨hkeeps, entry, hentry, hpurpose⟩ := design.arch.keepsPurposes_tagged
        (design.names.intern name).1 (design.types.ofWidth state.width).1 id
      -- The port comes last and leaves the signal what it was made for.
      have hdone {arch : Architecture} (hplaced : Architecture.KeepsPurposes
            ((design.arch.addSignal (design.names.intern name).1
              (design.types.ofWidth state.width).1 none).2.setLeaf design.arch.signals.nextId id)
            arch) :
          let now : Design :=
            ⟨(design.names.intern name).2, (design.types.ofWidth state.width).2, arch⟩
          design.KeepsPurposes now ∧
            now.Tags id.index { state with signal := some design.arch.signals.nextId } := by
        obtain ⟨found, hfound, hsame⟩ := hplaced.exists_signal _ entry hentry
        obtain ⟨htype, hleaf⟩ := Prod.mk.inj (hsame.trans hpurpose)
        refine ⟨⟨hkeeps.trans hplaced, TypeTable.growsTo_intern ..⟩, fun signal hsome => ?_⟩
        obtain rfl := Option.some.inj hsome
        exact ⟨found, hfound, hleaf, htype ▸ design.types.ofWidth_ofWidth state.width⟩
      simp only [leaf, hsignal]
      cases state.port with
      | none => exact hdone (.refl _)
      | some port => exact hdone (.bindPort ..)

-- The same for all members, among nodes whose signals were tagged at any time before.
theorem tags_members (separator : String) (id : Nat) (stem : String)
    {forest : Forest NodeState} {before design : Design} (h : forest.AllFrom before.Tags id)
    (hbefore : before.KeepsPurposes design) :
    design.KeepsPurposes (members separator id stem forest design).2.2 ∧
      (members separator id stem forest design).2.1.AllFrom
        (members separator id stem forest design).2.2.Tags id := by
  induction forest generalizing id stem design with
  | nil => exact ⟨.refl design, trivial⟩
  | cons name state inner rest ihi ihr =>
      obtain ⟨hstate, hinner, hrest⟩ := h
      cases inner with
      | nil =>
          obtain ⟨hnow, htags⟩ :=
            tags_leaf ⟨id⟩ (stem ++ separator ++ name) (hstate.keeps hbefore)
          obtain ⟨hlast, hlater⟩ := ihr (id + 1) stem hrest (hbefore.trans hnow)
          exact ⟨hnow.trans hlast, htags.keeps hlast, trivial, hlater⟩
      | cons first item below beside =>
          obtain ⟨hnow, hwithin⟩ := ihi (id + 1) (stem ++ separator ++ name) hinner hbefore
          obtain ⟨hlast, hlater⟩ := ihr (id + 1 + (Forest.cons first item below beside).size) stem
            hrest (hbefore.trans hnow)
          obtain ⟨hsize, -⟩ := members_keeps separator (id + 1) (stem ++ separator ++ name)
            (.cons first item below beside) design
          simp only [members]
          refine ⟨hnow.trans hlast, (hstate.keeps hbefore).keeps (hnow.trans hlast),
            hwithin.imp fun _ _ htags => htags.keeps hlast, ?_⟩
          rw [hsize]
          exact hlater

end Backing

namespace Synthesizer

variable {synth made : Synthesizer} {id : NodeId} {stem : String} {design now : Design}
  {signals : List SignalId}

theorem tags_materialize (htags : synth.nodes.AllFrom design.Tags 0)
    (h : synth.materialize id stem design = some (signals, made, now)) :
    design.KeepsPurposes now ∧ made.nodes.AllFrom now.Tags 0 := by
  simp only [materialize] at h
  split at h
  · cases h
  · rename_i spot hspot
    obtain ⟨hroot, hinner⟩ := htags.of_spot? hspot
    rw [Nat.zero_add] at hroot hinner
    split at h
    · obtain ⟨-, rfl, rfl⟩ := h
      obtain ⟨hkeeps, hleaf⟩ := Backing.tags_leaf id stem hroot
      refine ⟨hkeeps, ?_⟩
      refine (htags.imp fun _ _ htag => htag.keeps hkeeps).update hspot rfl ?_ ?_
      · rwa [Nat.zero_add]
      · rw [Nat.zero_add]
        exact hinner.imp fun _ _ htag => htag.keeps hkeeps
    · obtain ⟨-, rfl, rfl⟩ := h
      obtain ⟨hkeeps, hmembers⟩ :=
        Backing.tags_members synth.separator (id.index + 1) stem hinner (.refl design)
      obtain ⟨hsize, -⟩ := Backing.members_keeps synth.separator (id.index + 1) stem spot.inner
        design
      refine ⟨hkeeps, ?_⟩
      refine (htags.imp fun _ _ htag => htag.keeps hkeeps).update hspot hsize ?_ ?_
      · rw [Nat.zero_add]
        exact hroot.keeps hkeeps
      · rwa [Nat.zero_add]

end Synthesizer

namespace Workbench

variable {bench next start : Workbench} {command : Command}

-- Every backing signal is tagged with the node that has it and is of its width.
def Tagged (bench : Workbench) : Prop := bench.synth.nodes.AllFrom bench.design.Tags 0

theorem Tagged.of_map (h : bench.Tagged) (hdesign : next.design = bench.design)
    (hnodes : next.synth.nodes.map NodeState.backing = bench.synth.nodes.map NodeState.backing) :
    next.Tagged := by
  rw [Tagged, hdesign]
  exact AllFrom.of_map h hnodes fun _ _ _ hsame htags => htags.of_backing hsame

theorem Tagged.of_append (h : bench.Tagged) (hdesign : next.design = bench.design)
    {added : Forest NodeState} (hnodes : next.synth.nodes = bench.synth.nodes.append added)
    (hadded : added.All (·.signal = none)) : next.Tagged := by
  rw [Tagged, hdesign, hnodes]
  exact AllFrom.append h (hadded.allFrom fun id _ hnone => bench.design.tags_of_unsigned id hnone)

theorem Tagged.of_keeps (h : bench.Tagged) (hsynth : next.synth = bench.synth)
    (hkeeps : bench.design.KeepsPurposes next.design) : next.Tagged := by
  rw [Tagged, hsynth]
  exact AllFrom.imp h fun _ _ htags => htags.keeps hkeeps

theorem keepsPurposes_of_wired? {wiring : Wiring} (h : bench.wired? wiring = some next) :
    bench.design.KeepsPurposes next.design := by
  obtain ⟨arch, harch, rfl⟩ := exists_connectAll?_of_wired? h
  exact ⟨.connectAll? harch, .refl _⟩

-- A change of all nodes from one on down that does not touch their signals.
theorem map_backing_update {synth : Synthesizer} {top : NodeId} {spot : Spot NodeState}
    {f : NodeState → NodeState} (hspot : synth.node? top = some spot)
    (hf : ∀ state, (f state).backing = state.backing) :
    (synth.nodes.update (fun state inner => (f state, inner.map f)) top.index).map
      NodeState.backing = synth.nodes.map NodeState.backing := by
  refine map_update_eq hspot rfl ?_
  simp only [Spot.tree, map, map_map, hf]

theorem Tagged.of_perform? {operation : Operation} (h : bench.Tagged)
    (hnext : bench.perform? operation = some next) : next.Tagged := by
  cases operation with
  | instantiate template external source destinations =>
      obtain rfl := Option.some.inj hnext
      refine h.of_append rfl rfl ⟨rfl, (all_map ..).mpr ?_, trivial⟩
      exact all_of_forall (fun _ => rfl) _
  | propagateSource id =>
      obtain ⟨synth, hsynth, rfl⟩ := propagateSource_of_perform? hnext
      obtain ⟨spot, -, ⟨-, rfl⟩ | ⟨source, other, -, hother, rfl⟩⟩ :=
        Synthesizer.propagateSource_eq_ok hsynth
      · exact h
      · exact h.of_map rfl (map_update_eq hother rfl rfl)
  | matchByName id stem =>
      obtain ⟨⟨spot, hspot⟩, rfl⟩ := exists_node?_of_guard hnext
      obtain ⟨root, below, -, hkept, hupdate⟩ :=
        Synthesizer.exists_nodes_matchByName hspot stem bench.claims
      refine h.of_map rfl ((congrArg _ hupdate).trans ?_)
      exact map_update_eq hspot rfl (map_eq_of_map hkept NodeState.backing)
  | extractAll cls =>
      obtain rfl := Option.some.inj hnext
      simp only [extract, Synthesizer.extractAll]
      split
      · exact h
      · obtain ⟨added, hadded, -, hsignals⟩ := exists_added_tryPorts _ _ _ _ _
        exact h.of_append rfl hadded (all_unsigned_of_signals hsignals)
  | unExtract id =>
      obtain ⟨⟨spot, hspot⟩, rfl⟩ := exists_node?_of_guard hnext
      refine h.of_map rfl ?_
      simp only [hspot]
      exact map_backing_update hspot fun _ => rfl
  | reverse id =>
      obtain ⟨⟨spot, hspot⟩, rfl⟩ := exists_node?_of_guard hnext
      exact h.of_map rfl (map_backing_update hspot fun _ => rfl)
  | materialize id stem =>
      obtain ⟨signals, hmade, -⟩ := materialize_of_perform? hnext
      exact (Synthesizer.tags_materialize h hmade).2
  | detach id connections =>
      obtain ⟨⟨spot, hspot⟩, rfl⟩ := exists_node?_of_guard hnext
      have hdetached (state : NodeState) :
          (Synthesizer.detachState connections state).signal = none := by
        cases connections <;> rfl
      have hbelow : (spot.inner.map (Synthesizer.detachState connections)).All
          (·.signal = none) := by
        rw [all_map]
        exact all_of_forall hdetached _
      exact AllFrom.update h hspot (size_map ..) (bench.design.tags_of_unsigned _ (hdetached _))
        (hbelow.allFrom fun id _ hnone => bench.design.tags_of_unsigned id hnone)
  | connect | propagate =>
      obtain ⟨hsynth, -⟩ := synth_claims_of_wired? hnext
      exact h.of_keeps hsynth (keepsPurposes_of_wired? hnext)

theorem Tagged.of_obey? (h : bench.Tagged) (hnext : bench.obey? command = some next) :
    next.Tagged := by
  have harch {arch : Architecture} (hkeeps : bench.design.arch.KeepsPurposes arch) :
      (bench.withArch arch).Tagged := h.of_keeps rfl ⟨hkeeps, .refl _⟩
  cases command with
  | interface operation => exact h.of_perform? hnext
  | type type =>
      obtain rfl := Option.some.inj hnext
      exact h.of_keeps rfl ⟨.refl _, TypeTable.growsTo_intern ..⟩
  | name text =>
      obtain rfl := Option.some.inj hnext
      exact h.of_keeps rfl ⟨.refl _, .refl _⟩
  | statement =>
      obtain rfl := Option.some.inj hnext
      exact harch (.of_signals_eq rfl)
  | signal name type default =>
      obtain rfl := Option.some.inj hnext
      exact harch (.addSignal ..)
  | hidden name type origin =>
      obtain ⟨⟨_, arch⟩, hadded, rfl⟩ := Option.map_eq_some_iff.mp hnext
      simp only [Architecture.addHidden?, Option.ite_none_right_eq_some] at hadded
      obtain ⟨-, rfl⟩ := Prod.mk.inj (Option.some.inj hadded.2)
      exact harch (.addHidden ..)
  | process name sensitivity body =>
      obtain ⟨⟨_, arch⟩, hadded, rfl⟩ := Option.map_eq_some_iff.mp hnext
      simp only [Architecture.addProcess?, Option.ite_none_right_eq_some] at hadded
      obtain ⟨-, rfl⟩ := Prod.mk.inj (Option.some.inj hadded.2)
      exact harch (.addProcess ..)
  | connect destination source =>
      obtain ⟨arch, hjoined, rfl⟩ := Option.map_eq_some_iff.mp hnext
      exact harch (.connect? hjoined)
  | bind signal port =>
      obtain ⟨arch, hbound, rfl⟩ := Option.map_eq_some_iff.mp hnext
      simp only [Architecture.bindPort?, Option.ite_none_right_eq_some] at hbound
      obtain rfl := Option.some.inj hbound.2
      exact harch (.bindPort ..)
  | component component =>
      obtain ⟨arch, hadded, rfl⟩ := Option.map_eq_some_iff.mp hnext
      simp only [Architecture.addComponent?, Option.ite_none_right_eq_some] at hadded
      obtain rfl := Option.some.inj hadded.2
      exact harch (.addComponent ..)

-- What is reached by commands of which each may come with a table of claims of its own.
inductive Session (start : Workbench) : Workbench → Prop
  | start : Session start start
  | step {bench next : Workbench} {command : Command} (h : Session start bench) (claims : Claims)
      (hnext : Workbench.obey? { bench with claims } command = some next) : Session start next

theorem tagged_of_session {design : Design} {separator : String}
    {ports : List (String × Direction)}
    (h : Session (unclaimedPorts design separator ports) bench) : bench.Tagged := by
  induction h with
  | start => trivial
  | @step bench next command h claims hnext ih =>
      have htagged : Tagged { bench with claims } := ih
      exact htagged.of_obey? hnext

-- Whatever is done to the interfaces of a unit, no two leaves share a backing signal. Each
-- signal is tagged with its leaf and has the type of as many bits. Making the signals of a
-- node comes to one for each leaf below it in the order of the members; making them again
-- changes nothing.
theorem materialize_of_session {design : Design} {separator : String}
    {ports : List (String × Direction)}
    (h : Session (unclaimedPorts design separator ports) bench) :
    (∀ a b one other signal, bench.synth.node? a = some one → bench.synth.node? b = some other →
      one.item.signal = some signal → other.item.signal = some signal → a = b) ∧
    (∀ id spot signal, bench.synth.node? id = some spot → spot.item.signal = some signal →
      ∃ entry, bench.design.arch.signals.get? signal = some entry ∧ entry.leaf = some id ∧
        bench.design.types.ofWidth spot.item.width = (entry.type, bench.design.types) ∧
        bench.design.types.get? entry.type = some (.bits spot.item.width .plain false)) ∧
    ∀ id spot stem, bench.synth.node? id = some spot →
      ∃ signals made last after,
        bench.synth.materialize id stem bench.design = some (signals, made, last) ∧
        made.node? id = some after ∧ after.leaves.map (·.1) = spot.leaves.map (·.1) ∧
        after.leaves.map (·.2.signal) = signals.map some ∧
        ∀ again, made.materialize id again last = some (signals, made, last) := by
  have htags {id : NodeId} {spot : Spot NodeState} (hspot : bench.synth.node? id = some spot) :
      bench.design.Tags id.index spot.item := by
    obtain ⟨htags, -⟩ := (tagged_of_session h).of_spot? hspot
    rwa [Nat.zero_add] at htags
  refine ⟨?_, ?_, ?_⟩
  · intro a b one other signal hone hother hsignal hsignal'
    obtain ⟨entry, hentry, hleaf, -⟩ := htags hone signal hsignal
    obtain ⟨entry', hentry', hleaf', -⟩ := htags hother signal hsignal'
    obtain rfl := Option.some.inj (hentry.symm.trans hentry')
    exact Option.some.inj (hleaf.symm.trans hleaf')
  · intro id spot signal hspot hsignal
    obtain ⟨entry, hentry, hleaf, htype⟩ := htags hspot signal hsignal
    exact ⟨entry, hentry, hleaf, htype, TypeTable.get?_of_ofWidth htype⟩
  · intro id spot stem hspot
    obtain ⟨signals, made, last, after, hmade, hafter, hsigned, hpaths⟩ :=
      Synthesizer.exists_materialize hspot stem bench.design
    exact ⟨signals, made, last, after, hmade, hafter, hpaths, hsigned,
      fun again => Synthesizer.materialize_of_signed hafter hsigned again last⟩

theorem session_obeyAll? {commands : List Command} (h : Session start bench)
    (hnext : bench.obeyAll? commands = some next) : Session start next := by
  induction commands generalizing bench with
  | nil =>
      obtain rfl := Option.some.inj hnext
      exact h
  | cons command rest ih =>
      obtain ⟨middle, hmiddle, hrest⟩ := Option.bind_eq_some_iff.mp hnext
      exact ih (h.step bench.claims hmiddle) hrest

-- One leaf gets its signal, loses it and gets another one along with all the others.
def controlCommands : List Command :=
  [.interface (.extractAll Synthesizer.control), .interface (.materialize ⟨3⟩ "x"),
    .interface (.detach ⟨2⟩ false), .interface (.materialize ⟨0⟩ "p")]

def controlPorts : Workbench :=
  unclaimedPorts Synthesizer.noSignals "_" [("p_en", .output), ("p_bx", .output)]

def backedControl : Workbench :=
  (controlPorts.obeyAll? controlCommands).get (by decide +kernel)

theorem materialize_of_session_control :
    Session controlPorts backedControl ∧
      (backedControl.synth.node? ⟨1⟩).map (·.item.signal) = some (some ⟨1⟩) ∧
      (backedControl.synth.node? ⟨3⟩).map (·.item.signal) = some (some ⟨2⟩) ∧
      (∃ entry, backedControl.design.arch.signals.get? ⟨2⟩ = some entry ∧ entry.leaf = some ⟨3⟩) ∧
      ∃ signals made last, backedControl.synth.materialize ⟨0⟩ "q" backedControl.design =
          some (signals, made, last) ∧
        ∀ again, made.materialize ⟨0⟩ again last = some (signals, made, last) := by
  have hrun : controlPorts.obeyAll? controlCommands = some backedControl :=
    (Option.some_get _).symm
  have h : Session controlPorts backedControl := session_obeyAll? .start hrun
  have hfirst : (backedControl.synth.node? ⟨1⟩).map (·.item.signal) = some (some ⟨1⟩) := by
    decide +kernel
  have hlast : (backedControl.synth.node? ⟨3⟩).map (·.item.signal) = some (some ⟨2⟩) := by
    decide +kernel
  have hroot : (backedControl.synth.node? ⟨0⟩).isSome := by decide +kernel
  obtain ⟨-, htags, hmade⟩ := materialize_of_session h
  obtain ⟨spot, hspot, hsignal⟩ := Option.map_eq_some_iff.mp hlast
  obtain ⟨entry, hentry, hleaf, -⟩ := htags ⟨3⟩ spot ⟨2⟩ hspot hsignal
  obtain ⟨root, hroot⟩ := Option.isSome_iff_exists.mp hroot
  obtain ⟨signals, made, last, -, hresult, -, -, -, hagain⟩ := hmade ⟨0⟩ root "q" hroot
  exact ⟨h, hfirst, hlast, ⟨entry, hentry, hleaf⟩, signals, made, last, hresult, hagain⟩

end Workbench

end Rtl
