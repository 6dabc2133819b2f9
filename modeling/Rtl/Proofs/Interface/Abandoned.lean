import Rtl.Proofs.Interface.Undoing

namespace Rtl

namespace Forest

variable {α : Type} {name : String} {item : α} {inner rest forest : Forest α} {index : Nat}
  {spot : Spot α}

-- The names that lead to an entry, its own the last.
def Spot.path (spot : Spot α) : List String := spot.above ++ [spot.name]

def item? (index : Nat) (forest : Forest α) : Option α := (forest.spot? index).map (·.item)

theorem item?_inner (h : index < inner.size) :
    (cons name item inner rest).item? (index + 1) = inner.item? index := by
  rw [item?, spot?_inner h, Option.map_map]
  rfl

theorem item?_rest : (cons name item inner rest).item? (index + 1 + inner.size) =
    rest.item? index := congrArg _ spot?_rest

-- What is below an entry, seen from there and from the outermost level.
theorem spot?_below {top : Spot α} (h : forest.spot? index = some top) {other : Nat}
    (hother : other < top.inner.size) :
    forest.spot? (index + (other + 1)) =
      (top.inner.spot? other).map fun spot => { spot with above := top.path ++ spot.above } := by
  induction h using spot?_induction with
  | here name item inner rest =>
      rw [Nat.zero_add, spot?_inner hother]
      rfl
  | within name item inner rest index top htop ih =>
      have hindex : index + 1 + (other + 1) = index + (other + 1) + 1 := by omega
      have hlt := size_inner_of_spot? htop
      have hwithin : index + (other + 1) < inner.size := by
        simp only at hother
        omega
      rw [hindex, spot?_inner hwithin, ih hother, Option.map_map]
      rfl
  | later name item inner rest index top htop ih =>
      have hindex : index + 1 + inner.size + (other + 1) =
          index + (other + 1) + 1 + inner.size := by omega
      rw [hindex, spot?_rest, ih hother]

theorem getElem?_middle {front middle other back : List α} (h : other.length = middle.length)
    (index : Nat) : (front ++ other ++ back)[index]? =
      if front.length ≤ index ∧ index < front.length + middle.length then
        other[index - front.length]?
      else (front ++ middle ++ back)[index]? := by
  simp only [List.getElem?_append, List.length_append, h]
  grind

-- The entries below one are those of its tree, where their paths start.
theorem spot?_tree {top : Spot α} (h : forest.spot? index = some top) (other : Nat)
    (hother : other ≤ top.inner.size) :
    (forest.spot? (index + other)).map
        (fun spot => (spot.item, spot.inner, String.join (spot.path.drop top.path.length))) =
      (top.tree.spot? other).map fun spot => (spot.item, spot.inner, String.join spot.path) := by
  cases other with
  | zero =>
      rw [Nat.add_zero, h, Option.map_some, List.drop_length]
      rfl
  | succ other =>
      rw [spot?_below h hother, Spot.tree, spot?_inner hother, Option.map_map, Option.map_map]
      refine congrArg (Option.map · _) (funext fun below => ?_)
      have hpath : (top.path ++ below.above ++ [below.name]).drop top.path.length = below.path := by
        rw [List.append_assoc, List.drop_left]
        rfl
      have hroot : String.join (("" :: below.above) ++ [below.name]) = String.join below.path := by
        rw [List.cons_append, String.join_cons, String.empty_append]
        rfl
      exact congrArg _ (congrArg _ ((congrArg _ hpath).trans hroot.symm))

-- A change at an entry shows at this and those below it only.
theorem item?_update (h : forest.spot? index = some spot)
    {change : α → Forest α → α × Forest α}
    (hsize : (change spot.item spot.inner).2.size = spot.inner.size) (other : Nat) :
    (forest.update change index).item? other =
      if index ≤ other ∧ other ≤ index + spot.inner.size then
        (cons "" (change spot.item spot.inner).1 (change spot.item spot.inner).2 nil).item?
          (other - index)
      else forest.item? other := by
  obtain ⟨front, back, hlength, hitems, hupdate⟩ := exists_items_update h
  simp only [item?, ← getElem?_items, hitems, hupdate, items, List.append_nil]
  have hsame : ((change spot.item spot.inner).1 :: (change spot.item spot.inner).2.items).length =
      (spot.item :: spot.inner.items).length := by
    simp only [List.length_cons, length_items, hsize]
  rw [getElem?_middle hsame, hlength, List.length_cons, length_items]
  exact ite_congr (by simp only [eq_iff_iff]; omega) (fun _ => rfl) fun _ => rfl

end Forest

open Forest

namespace Match

-- What the cause of a failure says of the node that it names.
def Concerns (name : String) (inner : Forest NodeState) : Incompatible → Prop
  | .missing wanted => wanted = name ∧ inner = .nil
  | .ambiguous _ wanted => wanted = name ∧ inner = .nil
  | .mixedSides wanted => wanted = name ∧ inner ≠ .nil

section

variable {claims : Claims} {stem : String} {cause : Incompatible} {forest left : Forest NodeState}

theorem size_leaveAll (claims : Claims) (stem : String) (forest : Forest NodeState) :
    (leaveAll claims stem forest).size = forest.size := by
  induction forest generalizing stem with
  | nil => rfl
  | cons name state inner rest ihi ihr => simp only [leaveAll, size, ihi, ihr]

theorem Abandoned.size_eq (h : Abandoned claims stem cause forest left) :
    left.size = forest.size := by
  induction h with
  | missing | ambiguous => rfl
  | mixed => simp only [size, size_leaveAll]
  | within state rest h ih => simp only [size, ih]
  | later name state inner h ih => simp only [size, size_leaveAll, ih]

theorem join_path_below (stem name : String) (spot : Spot NodeState) :
    stem ++ String.join (Spot.path { spot with above := name :: spot.above }) =
      (stem ++ name) ++ String.join spot.path := by
  have hpath : Spot.path { spot with above := name :: spot.above } = name :: spot.path := rfl
  rw [hpath, String.join_cons, String.append_assoc]

theorem join_path_root (stem name : String) (state : NodeState) (inner : Forest NodeState) :
    stem ++ String.join (Spot.path ⟨[], name, state, inner⟩) = stem ++ name := by
  simp [Spot.path]

theorem item?_leaveAll (claims : Claims) (stem : String) {forest : Forest NodeState} {index : Nat}
    {spot : Spot NodeState} (h : forest.spot? index = some spot) :
    (leaveAll claims stem forest).item? index =
      some (leave claims (stem ++ String.join spot.path) spot.item spot.inner) := by
  induction h using spot?_induction generalizing stem with
  | here name state inner rest =>
      rw [join_path_root]
      rfl
  | within name state inner rest index spot hspot ih =>
      have hlt : index < (leaveAll claims (stem ++ name) inner).size :=
        (size_leaveAll ..).symm ▸ lt_size_of_spot? hspot
      rw [leaveAll, item?_inner hlt, ih, join_path_below]
  | later name state inner rest index spot hspot ih =>
      rw [leaveAll, ← size_leaveAll claims (stem ++ name) inner, item?_rest, ih]

-- Where an attempt failed, and what it left of each node by the number of that.
theorem Abandoned.exists_failed (h : Abandoned claims stem cause forest left) :
    ∃ index failed, forest.spot? index = some failed ∧
      Concerns (stem ++ String.join failed.path) failed.inner cause ∧
      ∀ other spot, forest.spot? other = some spot → left.item? other =
        some (if other + spot.inner.size < index ∨
            (index < other ∧ other ≤ index + failed.inner.size) then
          leave claims (stem ++ String.join spot.path) spot.item spot.inner else spot.item) := by
  induction h with
  | missing stem name state rest =>
      refine ⟨0, _, rfl, ⟨(join_path_root ..).symm, rfl⟩, fun other spot h => ?_⟩
      rw [if_neg (by simp only [size]; omega), item?, h]
      rfl
  | ambiguous stem name count state rest =>
      refine ⟨0, _, rfl, ⟨(join_path_root ..).symm, rfl⟩, fun other spot h => ?_⟩
      rw [if_neg (by simp only [size]; omega), item?, h]
      rfl
  | mixed stem name state rest hinner =>
      refine ⟨0, _, rfl, ⟨(join_path_root ..).symm, hinner⟩, forall_spot?_cons ?_ ?_ ?_⟩
      · rw [if_neg (by simp only; omega)]
        rfl
      · intro other spot h
        have hlt := lt_size_of_spot? h
        rw [if_pos (by simp only; omega), item?_inner ((size_leaveAll ..).symm ▸ hlt),
          item?_leaveAll _ _ h, join_path_below]
      · intro other spot h
        rw [if_neg (by simp only; omega), ← size_leaveAll claims (stem ++ name), item?_rest,
          item?, h]
        rfl
  | @within stem name cause inner left state rest h ih =>
      obtain ⟨index, failed, hfailed, hcause, hleft⟩ := ih
      have hlt := size_inner_of_spot? hfailed
      refine ⟨index + 1, _, spot?_within hfailed, ?_, forall_spot?_cons ?_ ?_ ?_⟩
      · rwa [join_path_below]
      · rw [if_neg (by simp only; omega)]
        rfl
      · intro other spot hspot
        have hspotLt := size_inner_of_spot? hspot
        rw [item?_inner (by rw [h.size_eq]; omega), hleft other spot hspot, join_path_below]
        exact congrArg some (ite_congr (by simp only [eq_iff_iff]; omega) (fun _ => rfl)
          fun _ => rfl)
      · intro other spot hspot
        rw [if_neg (by simp only; omega), ← h.size_eq, item?_rest, item?, hspot]
        rfl
  | @later stem cause rest left name state inner h ih =>
      obtain ⟨index, failed, hfailed, hcause, hleft⟩ := ih
      refine ⟨index + 1 + inner.size, failed, spot?_later hfailed, hcause,
        forall_spot?_cons ?_ ?_ ?_⟩
      · rw [if_pos (by simp only; omega), join_path_root]
        rfl
      · intro other spot hspot
        have hspotLt := size_inner_of_spot? hspot
        rw [if_pos (by simp only; omega), item?_inner (by rw [size_leaveAll]; omega),
          item?_leaveAll _ _ hspot, join_path_below]
      · intro other spot hspot
        rw [← size_leaveAll claims (stem ++ name) inner, item?_rest, hleft other spot hspot]
        exact congrArg some (ite_congr (by simp only [eq_iff_iff, size_leaveAll]; omega)
          (fun _ => rfl) fun _ => rfl)

end

-- A failed attempt at a single node.
theorem abandoned_node {id : NodeId} {stem : String} {state : NodeState}
    {inner : Forest NodeState} {claims : Claims} {cause : Incompatible}
    (h : (node id stem state inner claims).agreed = .error cause) :
    Abandoned claims stem cause (.cons "" state inner .nil)
      (node id stem state inner claims).nodes := by
  have hclaims := claims_node_of_error h
  have hundone : undone id.index stem (.cons "" state inner .nil) claims =
      (node id stem state inner claims).nodes := by
    rw [node] at hclaims ⊢
    rw [undone, Attempt.undo, hclaims, Claims.since_mark, List.map_nil, unbind_nil]
  exact hundone ▸ abandoned_of_error (.refl claims) h

end Match

namespace Synthesizer

-- The name of the port that a match from one node on looks for at another.
def portName (stem : String) (top spot : Spot NodeState) : String :=
  stem ++ String.join (spot.path.drop top.path.length)

-- Whether a match that failed at one node had matched another: it comes before
-- the one that failed and is not around it, or it is below it.
def Tried (synth : Synthesizer) (top failed id : NodeId) : Prop :=
  synth.Covers top id ∧ ¬ synth.Covers id failed ∧
    (id.index < failed.index ∨ synth.Covers failed id)

instance (synth : Synthesizer) (top failed id : NodeId) : Decidable (synth.Tried top failed id) :=
  inferInstanceAs (Decidable (_ ∧ _ ∧ _))

theorem tried_iff {synth : Synthesizer} {id node other : NodeId} {failed spot : Spot NodeState}
    (hfailed : synth.node? node = some failed) (hspot : synth.node? other = some spot)
    (hother : synth.Covers id other) :
    synth.Tried id node other ↔ other.index + spot.inner.size < node.index ∨
      (node.index < other.index ∧ other.index ≤ node.index + failed.inner.size) := by
  rw [Tried, covers_iff hspot, covers_iff hfailed, and_iff_right hother]
  omega

theorem exists_failed_matchByName {synth : Synthesizer} {id : NodeId} {top : Spot NodeState}
    {stem : String} {claims : Claims} {reason : Incompatible} (htop : synth.node? id = some top)
    (h : (Match.node id stem top.item top.inner claims).agreed = .error reason) :
    ∃ node failed, synth.node? node = some failed ∧ synth.Covers id node ∧
      Match.Concerns (portName stem top failed) failed.inner reason ∧
      ∀ other spot, synth.node? other = some spot →
        ((synth.matchByName id stem claims).2.1.node? other).map (·.item) =
          some (if synth.Tried id node other then
            Match.leave claims (portName stem top spot) spot.item spot.inner else spot.item) := by
  obtain ⟨root, below, hnode, -, hupdate⟩ := exists_nodes_matchByName htop stem claims
  have habandoned := hnode ▸ Match.abandoned_node h
  have hsize : below.size = top.inner.size := by
    have := habandoned.size_eq
    simp only [Forest.size] at this
    omega
  obtain ⟨index, inTree, hinTree, hconcerns, hleft⟩ := habandoned.exists_failed
  have hindex := size_inner_of_spot? hinTree
  simp only [Forest.size] at hindex
  have hseen := spot?_tree htop index (by omega)
  rw [Spot.tree, hinTree] at hseen
  obtain ⟨failed, hfailed, heq⟩ := Option.map_eq_some_iff.mp hseen
  obtain ⟨-, hinner, hpath⟩ := by simpa only [Prod.mk.injEq] using heq
  have hcovers : synth.Covers id ⟨id.index + index⟩ := by
    rw [covers_iff htop]
    simp only
    omega
  refine ⟨⟨id.index + index⟩, failed, hfailed, hcovers, ?_, fun other spot hspot => ?_⟩
  · rw [portName, hpath, hinner]
    exact hconcerns
  · change (synth.matchByName id stem claims).2.1.nodes.item? other.index = _
    rw [hupdate, item?_update htop hsize]
    by_cases hother : synth.Covers id other
    · have hrange := (covers_iff htop).mp hother
      obtain ⟨distance, hdistance⟩ := Nat.exists_eq_add_of_le hrange.1
      have hbelow := spot?_tree htop distance (by omega)
      rw [← hdistance, show synth.nodes.spot? other.index = some spot from hspot] at hbelow
      obtain ⟨twin, htwin, heq⟩ := Option.map_eq_some_iff.mp hbelow.symm
      obtain ⟨hitem, hmembers, hname⟩ := by simpa only [Prod.mk.injEq] using heq
      have hsub : other.index - id.index = distance := by omega
      rw [if_pos hrange, hsub, hleft distance twin htwin, hitem, hmembers, hname, ← hinner,
        ← portName]
      refine congrArg some (ite_congr ?_ (fun _ => rfl) fun _ => rfl)
      rw [eq_iff_iff, tried_iff hfailed hspot hother]
      simp only
      omega
    · have hout : ¬ synth.Tried id ⟨id.index + index⟩ other := fun htried => hother htried.1
      rw [if_neg (mt (covers_iff htop).mpr hother), if_neg hout]
      exact congrArg _ hspot

-- A failed match leaves of what it had matched the sides that it found and takes
-- the ports. So nothing has changed exactly if these nodes were on those sides
-- before and the leaves among them had no port.
theorem nodes_matchByName_of_error {synth : Synthesizer} {id : NodeId} {top : Spot NodeState}
    {stem : String} {claims : Claims} {cause : InterfaceError} (htop : synth.node? id = some top)
    (h : (synth.matchByName id stem claims).1 = .error cause) :
    ∃ reason node failed, cause = .incompatible reason ∧ synth.node? node = some failed ∧
      synth.Covers id node ∧ Match.Concerns (portName stem top failed) failed.inner reason ∧
      (∀ other spot, synth.node? other = some spot →
        ((synth.matchByName id stem claims).2.1.node? other).map (·.item) =
          some (if synth.Tried id node other then
            Match.leave claims (portName stem top spot) spot.item spot.inner else spot.item)) ∧
      ((∀ other spot, synth.node? other = some spot →
          ((synth.matchByName id stem claims).2.1.node? other).map (·.item.resolved) =
            some spot.item.resolved) ↔
        ∀ other spot, synth.node? other = some spot → synth.Tried id node other →
          spot.item.side = Match.sideFound claims (portName stem top spot) spot.item spot.inner ∧
            (spot.inner.isEmpty → spot.item.port = none)) := by
  obtain ⟨reason, hreason, rfl⟩ : ∃ reason,
      (Match.node id stem top.item top.inner claims).agreed = .error reason ∧
        cause = .incompatible reason := by
    simp only [matchByName, htop] at h
    split at h
    · cases h
    · rename_i reason hreason
      exact ⟨reason, hreason, (Except.error.inj h).symm⟩
  obtain ⟨node, failed, hfailed, hcovers, hconcerns, hitems⟩ :=
    exists_failed_matchByName htop hreason
  refine ⟨reason, node, failed, rfl, hfailed, hcovers, hconcerns, hitems,
    forall₃_congr fun other spot hspot => ?_⟩
  have hitem := congrArg (Option.map NodeState.resolved) (hitems other spot hspot)
  simp only [Option.map_map, Function.comp_def, Option.map_some] at hitem
  rw [hitem, Option.some_inj]
  split
  · rename_i htried
    rw [Match.resolved_leave_iff, forall_prop_of_true htried]
  · rename_i htried
    exact ⟨fun _ hnot => absurd hnot htried, fun _ => rfl⟩

-- Ports for all leaves of the nested instance under one name, and under another
-- for those of its nested member only, in the other direction.
def linkPorts : Claims :=
  Claims.ofPorts [("a_ch_x", .output), ("a_ch_y", .output), ("a_z", .input), ("b_ch_x", .input),
    ("b_ch_y", .input)]

-- The instance bound under the first name.
def boundInstance : Synthesizer := (nestedInstance.matchByName ⟨0⟩ "a_" linkPorts).2.1

def boundPorts : Claims := (nestedInstance.matchByName ⟨0⟩ "a_" linkPorts).2.2

theorem nodes_matchByName_bound :
    (boundInstance.matchByName ⟨0⟩ "b_" boundPorts).1 = .error (.incompatible (.missing "b_z")) ∧
      ∃ top node failed, boundInstance.node? ⟨0⟩ = some top ∧
        boundInstance.node? node = some failed ∧ boundInstance.Covers ⟨0⟩ node ∧
        Match.Concerns (portName "b_" top failed) failed.inner (.missing "b_z") ∧
        ∀ other spot, boundInstance.node? other = some spot →
          ((boundInstance.matchByName ⟨0⟩ "b_" boundPorts).2.1.node? other).map (·.item) =
            some (if boundInstance.Tried ⟨0⟩ node other then
              Match.leave boundPorts (portName "b_" top spot) spot.item spot.inner
            else spot.item) := by
  have htop : (boundInstance.node? ⟨0⟩).isSome := by decide +kernel
  have hfailed : (boundInstance.matchByName ⟨0⟩ "b_" boundPorts).1 =
      .error (.incompatible (.missing "b_z")) := by decide +kernel
  obtain ⟨top, htop⟩ := Option.isSome_iff_exists.mp htop
  obtain ⟨reason, node, failed, hreason, hnode, hcovers, hconcerns, hitems, -⟩ :=
    nodes_matchByName_of_error htop hfailed
  obtain rfl := InterfaceError.incompatible.inj hreason
  exact ⟨hfailed, top, node, failed, htop, hnode, hcovers, hconcerns, hitems⟩

-- The leaves of the nested member lose the ports that they had, and these and
-- the member itself are left on the other side.
theorem resolved_of_failed_match :
    (boundInstance.matchByName ⟨0⟩ "b_" boundPorts).1 =
        .error (.incompatible (.missing "b_z")) ∧
      boundInstance.nodes.items.map NodeState.resolved =
        [(.master, none), (.master, none), (.master, some ⟨0⟩), (.master, some ⟨1⟩),
          (.master, some ⟨2⟩)] ∧
      (boundInstance.matchByName ⟨0⟩ "b_" boundPorts).2.1.nodes.items.map NodeState.resolved =
        [(.master, none), (.slave, none), (.slave, none), (.slave, none),
          (.master, some ⟨2⟩)] := by
  decide +kernel

end Synthesizer

end Rtl
