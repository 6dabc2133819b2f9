import Rtl.Proofs.Interface.Fitting
import Rtl.Proofs.Interface.Replaying

namespace Rtl

namespace Claims

-- A free port has no entry in the log, and no other port has two.
structure Tidy (claims : Claims) : Prop where
  free : ∀ port, claims.owner? port = none → port ∉ claims.log.map (·.1)
  once : (claims.log.map (·.1)).Nodup

variable {claims before now : Claims} {made : List (PortId × NodeId)}

theorem tidy_ofPorts (ports : List (String × Direction)) : (ofPorts ports).Tidy :=
  ⟨fun _ _ => List.not_mem_nil, List.nodup_nil⟩

theorem Tidy.claim (h : claims.Tidy) {port : PortId} (hport : (claims.ports.get? port).isSome)
    (hfree : claims.owner? port = none) (leaf : NodeId) : (claims.claim port leaf).Tidy where
  free other hother := by
    have howner : (claims.claim port leaf).owner? other =
        (claims.setOwner port (some leaf)).owner? other := rfl
    have hlog : (claims.claim port leaf).log = (port, leaf) :: claims.log := rfl
    rw [howner] at hother
    rw [hlog, List.map_cons, List.mem_cons, not_or]
    by_cases he : port = other
    · subst he
      rw [owner?_setOwner_self hport] at hother
      cases hother
    · rw [owner?_setOwner_of_ne he] at hother
      exact ⟨Ne.symm he, h.free other hother⟩
  once := List.nodup_cons.mpr ⟨h.free port hfree, h.once⟩

theorem Tidy.grown (h : before.Tidy) (hmade : before.Grown made now) : now.Tidy := by
  induction hmade with
  | none => exact h
  | claim _ hfree leaf ih =>
      obtain ⟨entry, hentry, -⟩ := id hfree
      exact ih.claim (Option.isSome_of_eq_some hentry) hfree.owner? leaf

theorem Tidy.release (h : claims.Tidy) (port : PortId) : (claims.release port).Tidy where
  free other hother hmem := by
    obtain ⟨entry, hentry, rfl⟩ := List.mem_map.mp hmem
    rw [log_release, List.mem_filter] at hentry
    rw [owner?_release, if_neg (by simpa using hentry.2)] at hother
    exact h.free _ hother (List.mem_map_of_mem hentry.1)
  once := h.once.sublist (List.filter_sublist.map _)

-- No entry below the mark is of a port that the rollback frees, for none is there twice.
theorem Tidy.rollback (h : claims.Tidy) (mark : Nat) : (claims.rollback mark).Tidy where
  free port hport hmem := by
    have hnodup := h.once
    rw [← List.take_append_drop (claims.log.length - mark) claims.log, List.map_append] at hnodup
    rw [log_rollback] at hmem
    rw [owner?_rollback] at hport
    split at hport
    · rename_i hundone
      exact (List.disjoint_of_nodup_append hnodup) hundone hmem
    · obtain ⟨entry, hentry, rfl⟩ := List.mem_map.mp hmem
      exact h.free _ hport (List.mem_map_of_mem (List.mem_of_mem_drop hentry))
  once := h.once.sublist ((List.drop_sublist ..).map _)

namespace Grown

theorem owner?_of_mem (h : before.Grown made now) {port : PortId} (hport : port ∈ made.map (·.1)) :
    before.owner? port = .none := by
  induction h with
  | none => cases hport
  | claim h hfree leaf ih =>
      obtain rfl | hport := List.mem_cons.mp hport
      · by_contra hsome
        obtain ⟨node, hnode⟩ := Option.ne_none_iff_exists'.mp hsome
        have hheld := h.owner?_eq_some_iff.mpr (.inl hnode)
        rw [hfree.owner?] at hheld
        cases hheld
      · exact ih hport

theorem nodup_ports (h : before.Grown made now) : (made.map (·.1)).Nodup := by
  induction h with
  | none => exact List.nodup_nil
  | claim h hfree leaf ih =>
      refine List.nodup_cons.mpr ⟨fun hmem => ?_, ih⟩
      obtain ⟨entry, hentry, hport⟩ := List.mem_map.mp hmem
      have hheld := h.owner?_eq_some_iff.mpr (.inr hentry)
      rw [hport, hfree.owner?] at hheld
      cases hheld

-- What was claimed has another owner since then, and only that.
theorem owner?_eq_iff (h : before.Grown made now) {port : PortId} :
    now.owner? port = before.owner? port ↔ port ∉ made.map (·.1) := by
  constructor
  · intro hsame hmem
    obtain ⟨⟨port, node⟩, hentry, rfl⟩ := List.mem_map.mp hmem
    have hheld := h.owner?_eq_some_iff.mpr (.inr hentry)
    rw [hsame, h.owner?_of_mem hmem] at hheld
    cases hheld
  · intro hport
    refine Option.ext fun node => ?_
    rw [h.owner?_eq_some_iff, or_iff_left]
    exact fun hmem => hport (List.mem_map_of_mem hmem)

-- Releasing what was claimed leaves the owners as they were, in whatever order, and in
-- the log what was there of other ports.
theorem releaseEach_eq (h : before.Grown made now) {ports : List PortId}
    (hports : ports.Perm (made.map (·.1))) :
    now.releaseEach ports = { before with
      log := before.log.filter fun entry => now.owner? entry.1 = before.owner? entry.1 } := by
  refine eq_of_listing ?_ ?_ ?_
  · rw [listing_releaseEach, h.listing_eq]
    rfl
  · intro port
    rw [owner?_releaseEach]
    split
    · rename_i hport
      exact (h.owner?_of_mem (hports.mem_iff.mp hport)).symm
    · rename_i hport
      exact h.owner?_eq_iff.mpr fun hmem => hport (hports.mem_iff.mpr hmem)
  · rw [log_releaseEach, h.log_eq, List.filter_append]
    have hmade : made.filter (·.1 ∉ ports) = [] := by
      refine List.filter_eq_nil_iff.mpr fun entry hentry => ?_
      simpa using hports.mem_iff.mpr (List.mem_map_of_mem hentry)
    rw [hmade, List.nil_append]
    refine List.filter_congr fun entry _ => ?_
    simp only [h.owner?_eq_iff, hports.mem_iff]

-- So the whole table is as it was if its log has no entry of a free port.
theorem filter_log_of_tidy (h : before.Grown made now) (hbefore : before.Tidy) :
    before.log.filter (fun entry => now.owner? entry.1 = before.owner? entry.1) = before.log := by
  refine List.filter_eq_self.mpr fun entry hentry => decide_eq_true (h.owner?_eq_iff.mpr ?_)
  exact fun hmem => hbefore.free _ (h.owner?_of_mem hmem) (List.mem_map_of_mem hentry)

end Grown

end Claims

namespace Workbench

-- The units that can come about: ports that nobody holds at first, with whatever
-- interfaces, then any operations, and any claims, releases and rollbacks from outside.
-- A port that is held is claimed again from outside only if `again` is set.
inductive Reached (again : Bool) : Workbench → Prop
  | fresh (design : Design) (synth : Synthesizer) (ports : List (String × Direction)) :
      Reached again ⟨design, synth, .ofPorts ports⟩
  | step {bench next : Workbench} {operation : Operation} (h : Reached again bench)
      (hnext : bench.perform? operation = some next) : Reached again next
  | claim {bench : Workbench} {port : PortId} {leaf : NodeId} {claims : Claims}
      (h : Reached again bench) (hfree : bench.claims.owner? port = none ∨ again = true)
      (hclaims : bench.claims.claim? port leaf = some claims) : Reached again { bench with claims }
  | release {bench : Workbench} {port : PortId} {claims : Claims} (h : Reached again bench)
      (hclaims : bench.claims.release? port = some claims) : Reached again { bench with claims }
  | rollback {bench : Workbench} {mark : Nat} {undone : List (PortId × NodeId)} {claims : Claims}
      (h : Reached again bench) (hclaims : bench.claims.rollback? mark = some (undone, claims)) :
      Reached again { bench with claims }

end Workbench

namespace Synthesizer

variable {claims : Claims}

theorem tidy_releasePort (h : claims.Tidy) (id : NodeId) (state : NodeState) :
    (releasePort id state claims).Tidy := by
  simp only [releasePort]
  split
  · split
    · exact h.release _
    · exact h
  · exact h

theorem tidy_releaseAll (h : claims.Tidy) (id : Nat) (forest : Forest NodeState) :
    (releaseAll id forest claims).Tidy := by
  induction forest generalizing id claims with
  | nil => exact h
  | cons name state inner rest ihi ihr => exact ihr (ihi (tidy_releasePort h _ _) _) _

theorem exists_grown_extractAll (synth : Synthesizer) (cls : InterfaceClass) (claims : Claims) :
    ∃ made, claims.Grown made (synth.extractAll cls claims).2.2 := by
  simp only [extractAll]
  split
  · exact ⟨[], .none⟩
  · obtain ⟨added, hadded⟩ := extracts_tryPorts (synth.template cls).2 (synth.template cls).1 _
      claims (claims.ports.entries.map (·.1))
    obtain ⟨made, hmade, -⟩ := (hadded _ claims rfl rfl).grown
    exact ⟨made, hmade⟩

end Synthesizer

namespace Workbench

theorem tidy_perform? {bench next : Workbench} {operation : Operation} (h : bench.claims.Tidy)
    (hnext : bench.perform? operation = some next) : next.claims.Tidy := by
  cases operation with
  | instantiate template external source destinations =>
      obtain rfl := Option.some.inj hnext
      exact h
  | propagateSource id =>
      obtain ⟨synth, -, rfl⟩ := propagateSource_of_perform? hnext
      exact h
  | matchByName id stem =>
      obtain ⟨⟨spot, hspot⟩, rfl⟩ := exists_node?_of_guard hnext
      obtain ⟨made, hmade⟩ := Match.members_grown id.index stem
        (.cons "" spot.item spot.inner .nil) bench.claims
      simp only [hspot]
      exact h.grown hmade
  | extractAll cls =>
      obtain rfl := Option.some.inj hnext
      obtain ⟨made, hmade⟩ := bench.synth.exists_grown_extractAll cls bench.claims
      exact h.grown hmade
  | unExtract id =>
      obtain ⟨⟨spot, hspot⟩, rfl⟩ := exists_node?_of_guard hnext
      simp only [hspot]
      exact Synthesizer.tidy_releaseAll (Synthesizer.tidy_releasePort h _ _) _ _
  | reverse id =>
      obtain ⟨-, rfl⟩ := exists_node?_of_guard hnext
      exact h
  | materialize id stem =>
      obtain ⟨signals, -, hclaims⟩ := materialize_of_perform? hnext
      exact hclaims ▸ h
  | detach id connections =>
      obtain ⟨-, rfl⟩ := exists_node?_of_guard hnext
      exact h
  | connect | propagate =>
      obtain ⟨-, hclaims⟩ := synth_claims_of_wired? hnext
      exact hclaims ▸ h

theorem Reached.tidy {bench : Workbench} (h : bench.Reached false) : bench.claims.Tidy := by
  induction h with
  | fresh design synth ports => exact Claims.tidy_ofPorts ports
  | step _ hnext ih => exact tidy_perform? ih hnext
  | claim _ hfree hclaims ih =>
      obtain ⟨hport, hnext⟩ := Option.ite_none_right_eq_some.mp hclaims
      obtain rfl := Option.some.inj hnext
      have hlt := of_decide_eq_true hport
      exact ih.claim (by simpa [Arena.get?, Arena.size] using hlt) (hfree.resolve_right (by simp)) _
  | release _ hclaims ih =>
      obtain ⟨-, hnext⟩ := Option.ite_none_right_eq_some.mp hclaims
      obtain rfl := Option.some.inj hnext
      exact ih.release _
  | rollback _ hclaims ih =>
      obtain ⟨-, -, rfl⟩ := Claims.rollback?_eq_some_iff.mp hclaims
      exact ih.rollback _

end Workbench

end Rtl
