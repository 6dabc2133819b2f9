import Rtl.Proofs.Pipeline.Extraction
import Rtl.Proofs.Pipeline.Rendering

namespace Rtl

open Forest Backing Renderer

namespace Workbench

variable {bench : Workbench} {r : Renderer} {naming : Naming}

-- The ports that leaves have claimed.
def claimedPorts (bench : Workbench) : List Port :=
  bench.design.arch.entity.ports.toList.filter fun port => (bench.claims.owner? port.id).isSome

-- The signal that was made for the leaf that claimed a port.
def Serves (bench : Workbench) (port : PortId) (signal : SignalId) : Prop :=
  ∃ leaf spot found, bench.claims.owner? port = some leaf ∧
    bench.synth.node? leaf = some spot ∧ spot.inner = .nil ∧ spot.item.port = some port ∧
    spot.item.signal = some signal ∧ bench.design.arch.signals.get? signal = some found ∧
    found.leaf = some leaf

-- What is written for a port that was claimed: an input drives its signal, an
-- output is driven by it.
inductive PortConnected (bench : Workbench) (dialect : Dialect) (naming : Naming) (port : Port) :
    String → Prop
  | input {signal : SignalId} (hdirection : port.direction = .input)
      (hsignal : bench.Serves port.id signal) : PortConnected bench dialect naming port
        (dialect.connection (naming (.signal signal)) (naming (.port port.id)))
  | output {signal : SignalId} (hdirection : port.direction = .output)
      (hsignal : bench.Serves port.id signal) : PortConnected bench dialect naming port
        (dialect.connection (naming (.port port.id)) (naming (.signal signal)))

namespace Materialized

theorem map_portBindings (h : bench.Materialized) :
    bench.design.arch.portBindings.map (·.1) = (bench.synth.nodes.bindings 0).map (·.1) :=
  (filterMap_port_of_carried h.carried).symm.trans (map_bindings ..).symm

-- Every port that was claimed is bound once, and no other is.
theorem perm_claimedPorts (h : bench.Materialized) :
    (bench.claimedPorts.map Port.id).Perm (bench.design.arch.portBindings.map (·.1)) := by
  have hnodup : (bench.claimedPorts.map Port.id).Nodup :=
    h.plain.numbered.ports.nodup.sublist (List.filter_sublist.map _)
  have hbound : (bench.design.arch.portBindings.map (·.1)).Nodup := by
    rw [h.map_portBindings]
    exact (h.consistent.perm.map _).nodup_iff.mp h.consistent.nodup
  -- Neither side repeats a port, so it is enough that they have the same ones.
  refine (List.perm_ext_iff_of_nodup hnodup hbound).mpr fun id => ?_
  constructor
  · intro hmem
    obtain ⟨port, hport, rfl⟩ := List.mem_map.mp hmem
    obtain ⟨leaf, howner⟩ := Option.isSome_iff_exists.mp (List.mem_filter.mp hport).2
    rw [h.map_portBindings]
    exact List.mem_map_of_mem (h.consistent.owner?_eq_iff.mp howner)
  · intro hmem
    obtain ⟨binding, hbinding, rfl⟩ := List.mem_map.mp hmem
    obtain ⟨-, direction, hdirection⟩ := h.plain.bindings binding hbinding
    obtain ⟨port, hport, -⟩ := Option.map_eq_some_iff.mp hdirection
    have hid := h.plain.numbered.ports _ _ hport
    rw [h.map_portBindings, ← hid] at hmem
    obtain ⟨⟨_, leaf⟩, hleaf, hsame⟩ := List.mem_map.mp hmem
    have howner : bench.claims.owner? port.id = some leaf :=
      h.consistent.owner?_eq_iff.mpr (hsame ▸ hleaf)
    have hclaimed : port ∈ bench.claimedPorts := List.mem_filter.mpr
      ⟨Arena.mem_toList_of_get? hport, Option.isSome_iff_exists.mpr ⟨leaf, howner⟩⟩
    exact List.mem_map.mpr ⟨port, hclaimed, hid⟩

theorem serves (h : bench.Materialized) {binding : PortId × SignalId}
    (hbinding : binding ∈ bench.design.arch.portBindings) : bench.Serves binding.1 binding.2 := by
  obtain ⟨leaf, hleaf, hcarried⟩ := exists_mem_of_forall₂ h.carried hbinding
  obtain ⟨index, spot, hindex, hspot, hnil, hitem⟩ := exists_spot?_of_mem_numberedLeaves hleaf
  obtain ⟨found, hfound, htag⟩ := hcarried.tagged
  have hport : spot.item.port = some binding.1 := hitem ▸ hcarried.port
  have howner := h.consistent.owner?_eq_iff.mpr
    (mem_bindings_iff.mpr ⟨index, spot, hindex, hspot, hnil, hport⟩)
  have hnode : bench.synth.node? leaf.1 = some spot := by
    rw [Synthesizer.node?, hindex, Nat.zero_add]
    exact hspot
  exact ⟨leaf.1, spot, found, howner, hnode, hnil, hport, hitem ▸ hcarried.signal, hfound, htag⟩

-- A signal has a name of its own, so that the port is connected to that.
theorem portConnected (h : bench.Materialized) (hdesign : r.design = bench.design)
    {binding : PortId × SignalId} {names : String × String}
    (hbinding : binding ∈ bench.design.arch.portBindings)
    (hwritten : BindingWritten r naming binding names) :
    ∃ port, bench.design.arch.entity.ports.get? binding.1 = some port ∧
      bench.PortConnected r.dialect naming port (r.dialect.connection names.1 names.2) := by
  have hserves := h.serves hbinding
  have hnumbered {port : Port} (hport : r.design.arch.entity.ports.get? binding.1 = some port) :
      port.id = binding.1 := h.plain.numbered.ports _ _ (hdesign ▸ hport)
  have hnamed {name : String} (hname : SignalNamed r naming binding.2 name) :
      name = naming (.signal binding.2) := by
    cases hname with
    | shown => rfl
    | hidden hsignal hhidden =>
        have hshown := (h.plain.signals _ _ (hdesign ▸ hsignal)).shown
        rw [hhidden] at hshown
        cases hshown
  cases hwritten with
  | input hport hdirection hname =>
      obtain rfl := hnamed hname
      refine ⟨_, hdesign ▸ hport, ?_⟩
      rw [← hnumbered hport] at hserves ⊢
      exact .input hdirection hserves
  | output hport hdirection hname =>
      obtain rfl := hnamed hname
      refine ⟨_, hdesign ▸ hport, ?_⟩
      rw [← hnumbered hport] at hserves ⊢
      exact .output hdirection hserves

-- There is one connection for each port that was claimed, and no other.
theorem connections (h : bench.Materialized) (hdesign : r.design = bench.design)
    {texts : List String} (hwritten : ConnectionsWritten r naming texts) :
    ∃ connections, connections.Perm texts ∧
      List.Forall₂ (bench.PortConnected r.dialect naming) bench.claimedPorts connections := by
  obtain ⟨links, bindings, pairs, hlinks, hbindings, hperm, rfl⟩ := hwritten
  rw [hdesign, h.plain.connections, List.forall₂_nil_left_iff] at hlinks
  rw [hlinks, List.nil_append] at hperm
  have hbound : List.Forall₂
      (fun id text => ∃ port, bench.design.arch.entity.ports.get? id = some port ∧
        bench.PortConnected r.dialect naming port text)
      (bench.design.arch.portBindings.map (·.1))
      (bindings.map fun names => r.dialect.connection names.1 names.2) := by
    rw [List.forall₂_map_left_iff, List.forall₂_map_right_iff]
    rw [hdesign] at hbindings
    exact forall₂_of_forall_mem hbindings fun binding hmem names => h.portConnected hdesign hmem
  -- The bindings stand in the order in which leaves claimed their ports, the
  -- texts in an order of their own.
  obtain ⟨connections, hconnections, hsame⟩ :=
    List.perm_comp_forall₂ h.perm_claimedPorts hbound
  rw [List.forall₂_map_left_iff] at hconnections
  refine ⟨connections, hsame.trans (hperm.symm.map _), ?_⟩
  refine forall₂_of_forall_mem hconnections fun port hmem text htext => ?_
  obtain ⟨found, hfound, hconnected⟩ := htext
  have hport := h.plain.numbered.ports.get?_of_mem (List.mem_of_mem_filter hmem)
  obtain rfl := Option.some.inj (hport.symm.trans hfound)
  exact hconnected

-- A unit is written unless a port that goes both ways was claimed.
theorem render_cases (h : bench.Materialized) (output : OutputSettings) :
    ((∃ port ∈ bench.claimedPorts, port.direction = .inout) ∧
      ∃ cause, bench.render output = .error cause) ∨
    (∀ port ∈ bench.claimedPorts, port.direction ≠ .inout) ∧
      ∃ naming types piece, bench.render output = .ok (output.layout (.unit piece)) ∧
        UnitWritten (ofDesign output.dialect bench.design output.timeUnit output.scope) naming
          output.layout types piece ∧
        ∃ connections, connections.Perm piece.connections ∧
          List.Forall₂ (bench.PortConnected output.dialect naming) bench.claimedPorts
            connections := by
  cases hrender : bench.render output with
  | error cause =>
      refine .inl ⟨?_, cause, rfl⟩
      by_contra hnone
      have hports : OneWay bench.design.arch := by
        intro binding hmem hinout
        have hclaimed := h.perm_claimedPorts.mem_iff.mpr (List.mem_map_of_mem hmem)
        obtain ⟨port, hport, hid⟩ := List.mem_map.mp hclaimed
        have hget := h.plain.numbered.ports.get?_of_mem (List.mem_of_mem_filter hport)
        rw [Architecture.portDirection?, ← hid, hget] at hinout
        exact hnone ⟨port, hport, Option.some.inj hinout⟩
      obtain ⟨text, htext⟩ := exists_body_of_plain
        (r := ofDesign output.dialect bench.design output.timeUnit output.scope.push) h.plain hports
        output.layout
      cases hrender.symm.trans htext
  | ok text =>
      obtain ⟨naming, types, piece, rfl, hunit⟩ :=
        exists_unitWritten h.plain.numbered (Prod.ext hrender rfl)
      obtain ⟨connections, hperm, hconnections⟩ := h.connections rfl hunit.connections
      refine .inr ⟨?_, naming, types, piece, rfl, hunit, connections, hperm, hconnections⟩
      refine forall_mem_of_forall₂ hconnections fun port text hconnected => ?_
      cases hconnected with
      | input hdirection | output hdirection =>
          rw [hdirection]
          simp

end Materialized

end Workbench

section

variable {settings : Settings} {entity : String} {ports : List PortRequest}
  {classes : List InterfaceClass} {names : List String} {bench : Workbench}

theorem synthesizeAndRender_of_extractEach_error {cause : InterfaceError}
    (h : (Workbench.ofPorts settings entity ports).extractEach classes = .error cause) :
    synthesizeAndRender settings entity ports classes = .error (.interface cause) := by
  rw [synthesizeAndRender, h]
  rfl

theorem synthesizeAndRender_of_render_error {cause : RenderError}
    (h : (Workbench.ofPorts settings entity ports).extractEach classes = .ok (names, bench))
    (hrender : bench.render settings.output = .error cause) :
    synthesizeAndRender settings entity ports classes = .error (.render cause) := by
  simp only [synthesizeAndRender, h, hrender]
  rfl

theorem synthesizeAndRender_of_render_ok {text : String}
    (h : (Workbench.ofPorts settings entity ports).extractEach classes = .ok (names, bench))
    (hrender : bench.render settings.output = .ok text) :
    synthesizeAndRender settings entity ports classes = .ok (text, names) := by
  simp only [synthesizeAndRender, h, hrender]
  rfl

end

-- From a port list to a unit. It fails in interface synthesis exactly if the
-- template of a class starts with a member that has members of its own, and in
-- code generation exactly if a leaf claimed a port that goes both ways. What is
-- written has one connection for each port that was claimed, to the signal that
-- was made for the leaf that claimed it, and none for any other port.
theorem synthesizeAndRender_spec (settings : Settings) (entity : String)
    (ports : List PortRequest) (classes : List InterfaceClass) :
    let start := Workbench.ofPorts settings entity ports
    let templates := Registry.empty.buildEach classes
    let output := settings.output
    let result := synthesizeAndRender settings entity ports classes
    ((∃ cause, result = .error (.interface (.misconfigured cause))) ↔
      ∃ template ∈ templates, template.StartsNested) ∧
    ((∀ template ∈ templates, ¬ template.StartsNested) →
      ∃ names bench, start.extractEach classes = .ok (names, bench) ∧
        bench.design.arch.entity = start.design.arch.entity ∧
        ((∃ cause, result = .error (.render cause)) ↔
          ∃ port ∈ bench.claimedPorts, port.direction = .inout) ∧
        ((∀ port ∈ bench.claimedPorts, port.direction ≠ .inout) →
          ∃ naming types piece, result = .ok (output.layout (.unit piece), names) ∧
            UnitWritten (ofDesign output.dialect bench.design output.timeUnit output.scope) naming
              output.layout types piece ∧
            ∃ connections, connections.Perm piece.connections ∧
              List.Forall₂ (bench.PortConnected output.dialect naming) bench.claimedPorts
                connections)) := by
  intro start templates output result
  have hstart : start.Materialized := Workbench.materialized_ofPorts settings entity ports
  rcases Workbench.extractEach_cases hstart classes with
    ⟨hnested, cause, hextract⟩ | ⟨hplain, names, bench, hextract, hbench, hentity⟩
  · have hfails : result = .error (.interface (.misconfigured cause)) :=
      synthesizeAndRender_of_extractEach_error hextract
    refine ⟨⟨fun _ => hnested, fun _ => ⟨cause, hfails⟩⟩, fun hplain => ?_⟩
    obtain ⟨template, hmem, hfirst⟩ := hnested
    exact absurd hfirst (hplain template hmem)
  · have hnotNested : ¬ ∃ template ∈ templates, template.StartsNested :=
      fun ⟨template, hmem, hfirst⟩ => hplain template hmem hfirst
    rcases hbench.render_cases output with
      ⟨hinout, cause, hrender⟩ | ⟨hnone, naming, types, piece, hrender, hunit⟩
    · have hfails : result = .error (.render cause) :=
        synthesizeAndRender_of_render_error hextract hrender
      refine ⟨iff_of_false ?_ hnotNested, fun _ => ⟨names, bench, hextract, hentity,
        iff_of_true ⟨cause, hfails⟩ hinout, fun hnone => ?_⟩⟩
      · rw [hfails]
        simp
      · obtain ⟨port, hmem, hdirection⟩ := hinout
        exact absurd hdirection (hnone port hmem)
    · have hwritten : result = .ok (output.layout (.unit piece), names) :=
        synthesizeAndRender_of_render_ok hextract hrender
      refine ⟨iff_of_false ?_ hnotNested, fun _ => ⟨names, bench, hextract, hentity,
        iff_of_false ?_ ?_, fun _ => ⟨naming, types, piece, hwritten, hunit⟩⟩⟩
      · rw [hwritten]
        simp
      · rw [hwritten]
        simp
      · exact fun ⟨port, hmem, hdirection⟩ => hnone port hmem hdirection

end Rtl
