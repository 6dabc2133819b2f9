import Rtl.Proofs.Interface.Fitting
import Rtl.Proofs.Interface.Listing
import Rtl.Proofs.Interface.Replaying
import Rtl.Proofs.Interface.Roots

namespace Rtl

open Forest

namespace NodeState

-- What its template says of a node.
def shape (state : NodeState) : Shape := ⟨state.masterDirection, state.width⟩

theorem shape_unresolved (state : NodeState) : state.unresolved.shape = state.shape := rfl

theorem shape_ofShape (shape : Shape) : (ofShape shape).shape = shape := rfl

end NodeState

namespace Forest

-- Every leaf has a port.
def Filled : Forest NodeState → Prop
  | nil => True
  | cons _ state inner rest => (inner = nil → state.port.isSome) ∧ inner.Filled ∧ rest.Filled

-- Trees that are copies of a template, each under a name of its own.
def Copies (template : Template) : Forest NodeState → Prop
  | nil => True
  | cons _ root inner rest =>
      root.shape = ⟨.output, 0⟩ ∧ inner.map NodeState.shape = template.members ∧
        rest.Copies template

variable {front back forest : Forest NodeState} {template : Template}

theorem Filled.append (hfront : front.Filled) (hback : back.Filled) :
    (front.append back).Filled := by
  induction front with
  | nil => exact hback
  | cons name state inner rest _ ih => exact ⟨hfront.1, hfront.2.1, ih hfront.2.2⟩

theorem Copies.append (hfront : front.Copies template) (hback : back.Copies template) :
    (front.append back).Copies template := by
  induction front with
  | nil => exact hback
  | cons name root inner rest _ ih => exact ⟨hfront.1, hfront.2.1, ih hfront.2.2⟩

theorem Sided.filled {leaf : NodeState → Prop} {side : Side} (h : forest.Sided leaf side)
    (hleaf : ∀ state, leaf state → state.port.isSome) : forest.Filled := by
  induction h with
  | nil => trivial
  | leaf name hside hbound hrest ih => exact ⟨fun _ => hleaf _ hbound, trivial, ih⟩
  | nested name hside hinner hrest ihi ihr => exact ⟨nofun, ihi, ihr⟩

theorem Filled.isSome_port (h : forest.Filled) {index : Nat} {spot : Spot NodeState}
    (hspot : forest.spot? index = some spot) (hleaf : spot.inner = nil) :
    spot.item.port.isSome := by
  induction hspot using spot?_induction with
  | here name state inner rest => exact h.1 hleaf
  | within name state inner rest index spot hspot ih => exact ih h.2.1 hleaf
  | later name state inner rest index spot hspot ih => exact ih h.2.2 hleaf

end Forest

namespace Template

-- The rows of instances one after the other, each numbered from where the last one
-- ended: the template under the name of the instance, whose root comes first.
inductive Laid (template : Template) :
    Nat → List (String × NodeId) → List (Row NodeState) → Prop
  | nil (first : Nat) : Laid template first [] []
  | cons {first : Nat} {name : String} {found : List (String × NodeId)}
      {block rest : List (Row NodeState)}
      (hblock : block.map (Row.map NodeState.shape) =
        { template with className := name }.tree.rows none first)
      (hrest : Laid template (first + block.length) found rest) :
      Laid template first ((name, ⟨first⟩) :: found) (block ++ rest)

variable {template : Template} {forest : Forest NodeState}

theorem laid_of_copies (h : forest.Copies template) (first : Nat) :
    template.Laid first (forest.roots first) (forest.rows none first) := by
  induction forest generalizing first with
  | nil => exact .nil first
  | cons name root inner rest _ ih =>
      obtain ⟨hroot, hinner, hrest⟩ := h
      have hblock : ((cons name root inner .nil).rows none first).map (Row.map NodeState.shape) =
          { template with className := name }.tree.rows none first := by
        rw [← rows_map, Forest.map, hroot, hinner]
        rfl
      have hlength : ((cons name root inner .nil).rows none first).length = 1 + inner.size :=
        length_rows ..
      have hlaid := Laid.cons hblock (ih hrest _)
      rw [hlength, ← Nat.add_assoc] at hlaid
      simpa only [roots, entries, rows, List.map_cons, List.append_nil, List.cons_append]
        using hlaid

end Template

namespace Claims

-- Only ports that nobody held are claimed.
theorem Grown.owner?_eq_none {before now : Claims} {made : List (PortId × NodeId)}
    (h : before.Grown made now) {entry : PortId × NodeId} (hentry : entry ∈ made) :
    before.owner? entry.1 = .none := by
  induction h with
  | none => cases hentry
  | @claim made now h port hfree leaf ih =>
      rcases List.mem_cons.mp hentry with rfl | hentry
      · refine Option.eq_none_iff_forall_ne_some.mpr fun node hnode => ?_
        have hheld := h.owner?_eq_some_iff.mpr (.inl hnode)
        rw [hfree.owner?] at hheld
        cases hheld
      · exact ih hentry

end Claims

namespace Synthesizer

variable {synth next : Synthesizer} {claims now : Claims} {template : Template} {first : String}

-- What one port adds is a copy of the template with a port at every leaf, or nothing.
theorem exists_copies_tryPort (synth : Synthesizer) (template : Template) (first : String)
    (claims : Claims) (port : PortId) :
    ∃ added, Extracts synth claims
        ((synth.tryPort template first claims port).1.toList,
          (synth.tryPort template first claims port).2) added ∧
      added.Copies template ∧ added.Filled := by
  cases hcandidate : claims.candidate? port first with
  | none =>
      simp only [tryPort, hcandidate]
      exact ⟨.nil, .refl synth claims, trivial, trivial⟩
  | some candidate =>
      refine ⟨_, extracts_fresh hcandidate, ?_⟩
      generalize hattempt :
        Match.fresh template true none [] ⟨synth.size⟩ candidate claims = attempt
      cases hagreed : attempt.agreed with
      | error cause =>
          simp only [Match.Attempt.tree, hagreed]
          exact ⟨trivial, trivial⟩
      | ok agreed =>
          cases hnodes : attempt.nodes with
          | nil =>
              simp only [Match.Attempt.tree, hagreed, hnodes]
              exact ⟨trivial, trivial⟩
          | cons name root inner rest =>
              obtain ⟨side, hsided, hroot, hinner⟩ := Match.sided_of_agreed
                (hattempt ▸ hagreed) (hattempt ▸ hnodes) (synth.instanceName candidate)
              have hfilled := hsided.filled fun state hbound => by
                obtain ⟨port, _, hport, -⟩ := hbound
                exact Option.isSome_of_eq_some hport
              have hshapes := congrArg (Forest.map NodeState.shape) hinner
              simp only [map_map, NodeState.shape_unresolved, NodeState.shape_ofShape] at hshapes
              simp only [Match.Attempt.tree, hagreed, hnodes]
              exact ⟨⟨congrArg NodeState.shape hroot, hshapes.trans (map_id _), trivial⟩, hfilled⟩

theorem exists_copies_tryPorts (synth : Synthesizer) (template : Template) (first : String)
    (claims : Claims) (ports : List PortId) :
    ∃ added, Extracts synth claims (synth.tryPorts template first claims ports) added ∧
      added.Copies template ∧ added.Filled := by
  induction ports generalizing synth claims with
  | nil => exact ⟨.nil, .refl synth claims, trivial, trivial⟩
  | cons port rest ih =>
      obtain ⟨added, hadded, hcopies, hfilled⟩ :=
        exists_copies_tryPort synth template first claims port
      obtain ⟨more, hmore, hcopies', hfilled'⟩ := ih (synth.tryPort template first claims port).2.1
        (synth.tryPort template first claims port).2.2
      exact ⟨added.append more, hadded.trans hmore, hcopies.append hcopies',
        hfilled.append hfilled'⟩

namespace Extracts

variable {found : List (String × NodeId)} {added : Forest NodeState}

theorem rows_eq (h : Extracts synth claims (found, next, now) added) :
    next.rows = synth.rows ++ added.rows none synth.size := by
  have hnodes : next.nodes = synth.nodes.append added := congrArg Synthesizer.nodes h.nodes
  rw [rows, hnodes, rows_append, Nat.zero_add]
  rfl

-- The ports that got another owner are those of the leaves that were added.
theorem owner?_ne_iff (h : Extracts synth claims (found, next, now) added) (port : PortId) :
    now.owner? port ≠ claims.owner? port ↔
      ∃ row ∈ added.rows none synth.size, row.members = [] ∧ row.item.port = some port := by
  obtain ⟨made, hmade, hperm⟩ := h.grown
  constructor
  · intro hne
    obtain ⟨node, hnode⟩ : ∃ node, now.owner? port = some node := by
      refine Option.ne_none_iff_exists'.mp fun hnone => hne (hnone.trans ?_)
      refine (Option.eq_none_iff_forall_ne_some.mpr fun node hnode => ?_).symm
      cases hnone.symm.trans (hmade.owner?_eq_some_iff.mpr (.inl hnode))
    rcases hmade.owner?_eq_some_iff.mp hnode with hbefore | hentry
    · exact absurd (hnode.trans hbefore.symm) hne
    · obtain ⟨index, spot, -, hspot, hleaf, hport⟩ :=
        mem_bindings_iff.mp (hperm.mem_iff.mpr hentry)
      obtain ⟨row, hrow, -, hitem, hmembers⟩ := exists_row_of_spot? _ _ hspot
      refine ⟨row, List.mem_of_getElem? hrow, ?_, hitem ▸ hport⟩
      rw [hmembers, hleaf]
      rfl
  · rintro ⟨row, hrow, hmembers, hport⟩ heq
    obtain ⟨index, hindex⟩ := List.mem_iff_getElem?.mp hrow
    obtain ⟨spot, hspot, -, hitem, hinner⟩ := exists_spot_of_row hindex
    have hleaf := entries_eq_nil_iff.mp (hinner.symm.trans hmembers)
    have hentry := hperm.mem_iff.mp
      (mem_bindings_iff.mpr ⟨index, spot, rfl, hspot, hleaf, hitem ▸ hport⟩)
    have howner := hmade.owner?_eq_some_iff.mpr (.inr hentry)
    rw [heq, hmade.owner?_eq_none hentry] at howner
    cases howner

-- Each of these leaves holds a port that nobody held before.
theorem exists_port_of_leaf (h : Extracts synth claims (found, next, now) added)
    (hfilled : added.Filled) {index : Nat} {row : Row NodeState}
    (hrow : (added.rows none synth.size)[index]? = some row) (hmembers : row.members = []) :
    ∃ port, row.item.port = some port ∧ claims.owner? port = none ∧
      now.owner? port = some ⟨synth.size + index⟩ := by
  obtain ⟨made, hmade, hperm⟩ := h.grown
  obtain ⟨spot, hspot, -, hitem, hinner⟩ := exists_spot_of_row hrow
  have hleaf := entries_eq_nil_iff.mp (hinner.symm.trans hmembers)
  obtain ⟨port, hport⟩ := Option.isSome_iff_exists.mp (hfilled.isSome_port hspot hleaf)
  have hentry := hperm.mem_iff.mp
    (mem_bindings_iff.mpr ⟨index, spot, rfl, hspot, hleaf, hport⟩)
  exact ⟨port, hitem ▸ hport, hmade.owner?_eq_none hentry,
    hmade.owner?_eq_some_iff.mpr (.inr hentry)⟩

end Extracts

-- Candidates that fail leave no trace: behind the nodes there were comes one copy of the
-- template for each instance found, and the ports that changed hands are those of its
-- leaves.
theorem rows_extractAll {cls : InterfaceClass} {found : List (String × NodeId)}
    (h : synth.extractAll cls claims = (.ok found, next, now)) :
    ∃ added, next.rows = synth.rows ++ added ∧
      (synth.template cls).1.Laid synth.size found added ∧
      (∀ port, now.owner? port ≠ claims.owner? port ↔
        ∃ row ∈ added, row.members = [] ∧ row.item.port = some port) ∧
      ∀ index row, added[index]? = some row → row.members = [] →
        ∃ port, row.item.port = some port ∧ claims.owner? port = none ∧
          now.owner? port = some ⟨synth.size + index⟩ := by
  simp only [extractAll] at h
  split at h
  · cases h
  · rename_i first hfirst
    obtain ⟨added, hadded, hcopies, hfilled⟩ := exists_copies_tryPorts (synth.template cls).2
      (synth.template cls).1 first claims (claims.ports.entries.map (·.1))
    obtain ⟨hfound, hrest⟩ := Prod.mk.inj h
    obtain ⟨hnext, hnow⟩ := Prod.mk.inj hrest
    have hresult : (synth.template cls).2.tryPorts (synth.template cls).1 first claims
        (claims.ports.entries.map (·.1)) = (found, next, now) :=
      Prod.ext (Except.ok.inj hfound) (Prod.ext hnext hnow)
    rw [hresult] at hadded
    have hlaid := Template.laid_of_copies hcopies (synth.template cls).2.size
    rw [← hadded.found] at hlaid
    exact ⟨_, hadded.rows_eq, hlaid, hadded.owner?_ne_iff,
      fun index row hrow hmembers => hadded.exists_port_of_leaf hfilled hrow hmembers⟩

-- Two interfaces and, between them, the first half of one.
def gappedPorts : Claims :=
  .ofPorts [("a_valid", .output), ("a_ready", .input), ("x_valid", .output), ("b_valid", .output),
    ("b_ready", .input)]

def afterGap : Except InterfaceError (List (String × NodeId)) × Synthesizer × Claims :=
  (ofSeparator "_").extractAll stream gappedPorts

-- The half is tried and given up. The second interface follows the first one directly.
theorem rows_extractAll_gapped :
    (ofSeparator "_").extractAll stream gappedPorts =
        (.ok [("a", ⟨0⟩), ("b", ⟨3⟩)], afterGap.2.1, afterGap.2.2) ∧
    ∃ added, afterGap.2.1.rows = (ofSeparator "_").rows ++ added ∧
      ((ofSeparator "_").template stream).1.Laid 0 [("a", ⟨0⟩), ("b", ⟨3⟩)] added ∧
      (∀ port, afterGap.2.2.owner? port ≠ gappedPorts.owner? port ↔
        ∃ row ∈ added, row.members = [] ∧ row.item.port = some port) ∧
      ∀ index row, added[index]? = some row → row.members = [] →
        ∃ port, row.item.port = some port ∧ gappedPorts.owner? port = none ∧
          afterGap.2.2.owner? port = some ⟨(ofSeparator "_").size + index⟩ := by
  have hfound : afterGap.1 = .ok [("a", ⟨0⟩), ("b", ⟨3⟩)] := by decide +kernel
  have h : afterGap = (.ok [("a", ⟨0⟩), ("b", ⟨3⟩)], afterGap.2.1, afterGap.2.2) := by
    rw [← hfound]
  exact ⟨h, rows_extractAll h⟩

end Synthesizer

end Rtl
