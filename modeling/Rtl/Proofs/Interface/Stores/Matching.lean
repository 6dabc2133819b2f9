import Rtl.Proofs.Interface.Stores.Operations

namespace Rtl

open Forest

namespace Match

-- The match of one node under its whole name.
def single (id : Nat) (name : String) (state : NodeState) (inner : Forest NodeState)
    (claims : Claims) : Except Incompatible Bool × NodeState × Forest NodeState × Claims :=
  match inner with
  | .nil =>
      match bindLeaf ⟨id⟩ name state claims with
      | .error cause => (.error cause, state, .nil, claims)
      | .ok (bound, claims) => (.ok (bound.side == .master), bound, .nil, claims)
  | .cons first item below beside =>
      let within := members (id + 1) name (.cons first item below beside) claims
      match within.agreed.bind (settle name) with
      | .error cause =>
          let undone := within.undo (id + 1) claims.mark
          (.error cause, state, undone.nodes, undone.claims)
      | .ok side =>
          (.ok (nestedAgrees side state.masterDirection), { state with side }, within.nodes,
            within.claims)

variable {id : Nat} {stem name : String} {state : NodeState} {inner rest : Forest NodeState}
  {claims : Claims}

-- Members are matched one after the other.
theorem members_cons (id : Nat) (stem name : String) (state : NodeState)
    (inner rest : Forest NodeState) (claims : Claims) :
    members id stem (.cons name state inner rest) claims =
      match single id (stem ++ name) state inner claims with
      | (.error cause, state, inner, claims) => ⟨.error cause, .cons name state inner rest, claims⟩
      | (.ok agrees, state, below, claims) =>
          (members (id + 1 + inner.size) stem rest claims).after name state below agrees := by
  cases inner with
  | nil =>
      simp only [members, single]
      cases bindLeaf ⟨id⟩ (stem ++ name) state claims <;> rfl
  | cons first item below beside =>
      simp only [members, single]
      generalize members (id + 1) (stem ++ name) (.cons first item below beside) claims = within
      cases within.agreed.bind (settle (stem ++ name)) <;> rfl

theorem size_single (id : Nat) (name : String) (state : NodeState) (inner : Forest NodeState)
    (claims : Claims) : (single id name state inner claims).2.2.1.size = inner.size := by
  cases inner with
  | nil =>
      simp only [single]
      split <;> rfl
  | cons first item below beside =>
      simp only [single]
      split
      · simp only [Attempt.undo, size_unbind, size_members]
      · exact size_members ..

-- A match keeps what there is below a node, but for what is known about it.
theorem entries_single (id : Nat) (name : String) (state : NodeState) (inner : Forest NodeState)
    (claims : Claims) (first : Nat) :
    (single id name state inner claims).2.2.1.entries first = inner.entries first := by
  rw [← entries_map NodeState.unresolved, ← entries_map NodeState.unresolved first inner]
  refine congrArg (Forest.entries first) ?_
  cases inner with
  | nil =>
      simp only [single]
      split <;> rfl
  | cons other item below beside =>
      simp only [single]
      split
      · simp only [Attempt.undo, unresolved_unbind, unresolved_members]
      · exact unresolved_members ..

theorem node_eq_single (id : NodeId) (stem : String) (state : NodeState)
    (inner : Forest NodeState) (claims : Claims) : node id stem state inner claims =
      let (result, state, inner, claims) := single id.index stem state inner claims
      ⟨result.map fun agrees => [agrees], .cons "" state inner .nil, claims⟩ := by
  rw [node, members_cons, String.append_empty]
  generalize single id.index stem state inner claims = own
  obtain ⟨_ | _, _, _, _⟩ := own
  · rfl
  · rfl

-- A leaf that stands elsewhere does not matter.
theorem unbind_cons_of_apart {number first : Nat} (forest : Forest NodeState)
    (h : number < first ∨ first + forest.size ≤ number) (rest : List NodeId) :
    unbind (⟨number⟩ :: rest) first forest = unbind rest first forest := by
  refine unbind_congr fun index hfirst hlast => ?_
  have hne : index ≠ number := by omega
  simp [hne]

-- One that stands here loses its port.
theorem unbind_cons {forest : Forest NodeState} {index : Nat} {spot : Spot NodeState}
    (h : forest.spot? index = some spot) (first : Nat) (rest : List NodeId) :
    unbind (⟨first + index⟩ :: rest) first forest = unbind rest first
      (forest.update (fun state inner => ({ state with port := none }, inner)) index) := by
  induction h using spot?_induction generalizing first with
  | here name state inner beside =>
      rw [update_zero, unbind, unbind, unbind_cons_of_apart inner (by omega),
        unbind_cons_of_apart beside (by omega)]
      simp
  | within name state inner beside index spot hspot ih =>
      have hlt := lt_size_of_spot? hspot
      have hinner := ih (first + 1)
      rw [Nat.add_right_comm, Nat.add_assoc] at hinner
      rw [update_within hspot, unbind, unbind, hinner, size_update_of_spot? hspot rfl,
        unbind_cons_of_apart beside (by omega)]
      simp
  | later name state inner beside index spot hspot ih =>
      have hnumber : first + 1 + inner.size + index = first + (index + 1 + inner.size) := by omega
      have hbeside := ih (first + 1 + inner.size)
      rw [hnumber] at hbeside
      rw [update_rest, unbind, unbind, hbeside, unbind_cons_of_apart inner (by omega)]
      simp

end Match

namespace Nodes

-- Leaves of a forest that give back their ports.
theorem unbind_rows (front back : List (Row NodeState)) (parent : Option Nat)
    {undone : List (PortId × NodeId)} {forest : Forest NodeState}
    (h : ∀ entry ∈ undone, front.length ≤ entry.2.index ∧
      entry.2.index < front.length + forest.size) :
    (ofRows (front ++ (forest.rows parent front.length ++ back))).unbind undone =
      ofRows (front ++ ((Match.unbind (undone.map (·.2)) front.length forest).rows parent
        front.length ++ back)) := by
  induction undone generalizing forest with
  | nil => rw [List.map_nil, Match.unbind_nil]; rfl
  | cons entry rest ih =>
      obtain ⟨⟨hfirst, hlast⟩, hrest⟩ := List.forall_mem_cons.mp h
      obtain ⟨port, ⟨number⟩⟩ := entry
      obtain ⟨index, rfl⟩ := Nat.exists_eq_add_of_le hfirst
      obtain ⟨spot, hspot⟩ := exists_spot?_of_lt (Nat.lt_of_add_lt_add_left hlast)
      have hsize : (forest.update (fun state inner => ({ state with port := none }, inner))
          index).size = forest.size := size_update_of_spot? hspot rfl
      rw [List.map_cons, Match.unbind_cons hspot, ← ih (hsize.symm ▸ hrest),
        ← modify_spot hspot front back parent fun state => { state with port := none }]
      rfl

variable {name : String} {item : NodeState} {inner : Forest NodeState} {parent : Option Nat}
  {levels : Nat} {claims : Claims}

-- Matches members one after the other.
def matchMembers (levels : Nat) (stem : String) (members : List (String × Nat))
    (now : Nodes × Claims) : Option (Outcome (List Bool)) :=
  eachMember (fun name child now =>
    (matchNode levels (stem ++ name) child now).bind (matchMember child)) members now

theorem matchNode_succ (levels : Nat) (stem : String) (id : NodeId) (nodes : Nodes)
    (claims : Claims) :
    matchNode (levels + 1) stem id (nodes, claims) = (nodes.get? id).bind fun row =>
      if row.members.isEmpty then
        some (undo claims.mark (nodes.matchLeaf id stem row.item claims))
      else
        (matchMembers levels stem row.members (nodes, claims)).map fun agreed =>
          undo claims.mark (settle id stem agreed) := by
  rw [matchNode]
  cases nodes.get? id with
  | none => rfl
  | some row =>
      simp only [Option.bind_eq_bind, Option.bind_some]
      split
      · rfl
      · exact Option.map_eq_bind.symm

-- What is said about members of a node, at whatever place they stand.
def Matches (forest : Forest NodeState) : Prop :=
  ∀ (front back : List (Row NodeState)) (parent : Option Nat) (levels : Nat) (stem : String)
    (claims : Claims), forest.size ≤ levels →
      matchMembers levels stem (forest.entries front.length)
          (ofRows (front ++ (forest.rows parent front.length ++ back)), claims) =
        let attempt := Match.members front.length stem forest claims
        some (attempt.agreed,
          ofRows (front ++ (attempt.nodes.rows parent front.length ++ back)), attempt.claims)

-- So it is of members right behind their node.
theorem Matches.below (h : Matches inner) (front back : List (Row NodeState)) (row : Row NodeState)
    (hlevels : inner.size ≤ levels) (stem : String) (claims : Claims) :
    matchMembers levels stem (inner.entries (front.length + 1)) (ofRows (front ++
        row :: (inner.rows (some front.length) (front.length + 1) ++ back)), claims) =
      let attempt := Match.members (front.length + 1) stem inner claims
      some (attempt.agreed, ofRows (front ++
        row :: (attempt.nodes.rows (some front.length) (front.length + 1) ++ back)),
        attempt.claims) := by
  have hinner := h (front ++ [row]) back (some front.length) levels stem claims hlevels
  rw [List.length_append, List.length_singleton] at hinner
  simpa only [List.append_assoc, List.singleton_append] using hinner

-- And if they are given up, what was bound since is unbound.
theorem unbind_below (front back : List (Row NodeState)) (row : Row NodeState) (stem : String)
    (inner : Forest NodeState) (claims : Claims) :
    let attempt := Match.members (front.length + 1) stem inner claims
    (ofRows (front ++ row :: (attempt.nodes.rows (some front.length) (front.length + 1) ++
        back))).unbind (attempt.claims.since claims.mark) =
      ofRows (front ++ row :: ((attempt.undo (front.length + 1) claims.mark).nodes.rows
        (some front.length) (front.length + 1) ++ back)) := by
  intro attempt
  have hsize : attempt.nodes.size = inner.size := Match.size_members ..
  have hrange (entry : PortId × NodeId) (hentry : entry ∈ attempt.claims.since claims.mark) :
      (front ++ [row]).length ≤ entry.2.index ∧
        entry.2.index < (front ++ [row]).length + attempt.nodes.size := by
    rw [List.length_append, List.length_singleton, hsize]
    exact Match.range_of_mem_since hentry
  have hunbind := unbind_rows (front ++ [row]) back (some front.length) hrange
  rw [List.length_append, List.length_singleton] at hunbind
  simp only [List.append_assoc, List.singleton_append] at hunbind
  exact hunbind

theorem matchNode_leaf (front back : List (Row NodeState)) (name : String) (item : NodeState)
    (parent : Option Nat) (levels : Nat) (stem : String) (claims : Claims) :
    matchNode (levels + 1) stem ⟨front.length⟩
        (ofRows (front ++ ⟨name, item, parent, []⟩ :: back), claims) =
      match Match.bindLeaf ⟨front.length⟩ stem item claims with
      | .error cause =>
          some (.error cause, ofRows (front ++ ⟨name, item, parent, []⟩ :: back), claims)
      | .ok (bound, claims) =>
          some (.ok (), ofRows (front ++ ⟨name, bound, parent, []⟩ :: back), claims) := by
  rw [matchNode_succ, get?_middle, Option.bind_some]
  simp only [List.isEmpty_nil, if_true, matchLeaf]
  cases Match.bindLeaf ⟨front.length⟩ stem item claims with
  | ok bound => simp only [undo, setState, modify_middle]
  | error cause =>
      have hnone : Claims.Grown claims [] claims := .none
      simp only [undo, Claims.since_mark, hnone.rollback_eq]
      rfl

-- A node is matched after its members, which may be assumed to be matched as they should.
theorem matchNode_eq (h : Matches inner) (front back : List (Row NodeState)) (name : String)
    (item : NodeState) (parent : Option Nat) (hlevels : inner.size < levels) (stem : String)
    (claims : Claims) :
    matchNode levels stem ⟨front.length⟩
        (ofRows (front ++ ((cons name item inner .nil).rows parent front.length ++ back)), claims) =
      let (result, item, inner, claims) := Match.single front.length stem item inner claims
      some (result.map fun _ => (),
        ofRows (front ++ ((cons name item inner .nil).rows parent front.length ++ back)),
        claims) := by
  obtain ⟨levels, rfl⟩ : ∃ below, levels = below + 1 := ⟨levels - 1, by omega⟩
  rw [Forest.rows, Forest.rows, List.append_nil, List.cons_append]
  cases inner with
  | nil =>
      refine (matchNode_leaf front back name item parent levels stem claims).trans ?_
      simp only [Match.single]
      cases Match.bindLeaf ⟨front.length⟩ stem item claims <;> rfl
  | cons first state below beside =>
      have hmatch := h.below front back ⟨name, item, parent,
        (cons first state below beside).entries (front.length + 1)⟩ (Nat.le_of_lt_succ hlevels) stem
        claims
      have hundo := unbind_below front back ⟨name, item, parent,
        (cons first state below beside).entries (front.length + 1)⟩ stem
        (cons first state below beside) claims
      have hentries := Match.entries_single front.length stem item (cons first state below beside)
        claims (front.length + 1)
      rw [matchNode_succ, get?_middle, Option.bind_some]
      simp only [isEmpty_entries, isEmpty, Bool.false_eq_true, if_false, hmatch, Option.map_some,
        settle, Match.single] at hentries hundo ⊢
      generalize Match.members (front.length + 1) stem (cons first state below beside) claims =
        within at hentries hundo ⊢
      cases hsettled : within.agreed.bind (Match.settle stem) with
      | error cause =>
          simp only [hsettled] at hentries
          simp only [undo, hundo, Forest.rows, hentries, List.append_nil, List.cons_append]
          rfl
      | ok side =>
          simp only [hsettled] at hentries
          simp only [undo, modify_middle, Forest.rows, hentries, List.append_nil,
            List.cons_append]
          rfl

-- What a node that was matched tells the one around it.
theorem agrees_of_single {id first : Nat} {stem : String} {state : NodeState}
    {below : Forest NodeState} {now : Claims} {result : Bool}
    (h : Match.single id stem item inner claims = (.ok result, state, below, now)) :
    agrees ⟨name, state, parent, below.entries first⟩ = result := by
  rw [agrees]
  simp only [isEmpty_entries]
  cases inner with
  | nil =>
      simp only [Match.single] at h
      split at h
      · cases h
      · cases h
        rfl
  | cons other own beneath beside =>
      have hentries := Match.entries_single id stem item (cons other own beneath beside) claims 0
      have hempty := congrArg List.isEmpty hentries
      rw [h, isEmpty_entries] at hempty
      simp only [Match.single] at h
      split at h
      · cases h
      · cases h
        rw [if_neg (by rw [hempty]; exact Bool.false_ne_true)]

theorem matches_forest (forest : Forest NodeState) : Matches forest := by
  induction forest with
  | nil => exact fun _ _ _ _ _ _ _ => rfl
  | cons name item inner beside ihi ihr =>
      intro front back parent levels stem claims hlevels
      simp only [Forest.size] at hlevels
      have hnode := matchNode_eq ihi front
        (beside.rows parent (front.length + 1 + inner.size) ++ back) name item parent
        (show inner.size < levels by omega) (stem ++ name) claims
      have hagrees (state : NodeState) (below : Forest NodeState) (now : Claims) (result : Bool) :=
        @agrees_of_single name item inner parent claims front.length (front.length + 1)
          (stem ++ name) state below now result
      have hsize := Match.size_single front.length (stem ++ name) item inner claims
      rw [rows_split, List.append_assoc, entries, matchMembers, eachMember, hnode,
        Match.members_cons]
      generalize Match.single front.length (stem ++ name) item inner claims = own at hagrees hsize ⊢
      obtain ⟨cause | result, state, below, now⟩ := own
      · simp only at hsize
        simp only [Except.map, Option.bind_some, matchMember, Option.bind_eq_bind, Forest.rows,
          hsize, List.append_nil, List.cons_append, List.append_assoc]
        rfl
      · simp only at hsize
        have hbeside := ihr (front ++ (cons name state below .nil).rows parent front.length) back
          parent levels stem now (by omega)
        rw [length_append_node front name state parent hsize, List.append_assoc,
          matchMembers] at hbeside
        have hresult := hagrees state below now result rfl
        have hget := get?_middle front ⟨name, state, parent, below.entries (front.length + 1)⟩
          (below.rows (some front.length) (front.length + 1) ++
            (beside.rows parent (front.length + 1 + inner.size) ++ back))
        simp only [Forest.rows, List.append_nil, List.cons_append, List.append_assoc] at hbeside
        simp only [Except.map, Option.bind_some, matchMember, Option.bind_eq_bind, Forest.rows,
          List.append_nil, List.cons_append, hget, hresult, Option.pure_def, hbeside, hsize,
          Match.Attempt.after, List.append_assoc]

end Nodes

namespace Synthesizer

variable {synth : Synthesizer} {id : NodeId} {spot : Spot NodeState}

theorem matchByName?_store (h : synth.node? id = some spot) (stem : String) (claims : Claims) :
    synth.store.matchByName? id stem claims =
      some ((synth.matchByName id stem claims).1, (synth.matchByName id stem claims).2.1.store,
        (synth.matchByName id stem claims).2.2) := by
  obtain ⟨front, back, around, rfl, hself, hnodes⟩ := exists_nodes_update h
  have hlt : spot.inner.size < synth.store.size :=
    synth.size_store ▸ Nat.lt_of_le_of_lt (Nat.le_add_left ..) (size_inner_of_spot? h)
  rw [Store.matchByName?, hself,
    Nodes.matchNode_eq (Nodes.matches_forest spot.inner) front back _ _ _ hlt]
  have hsize := Match.size_single front.length stem spot.item spot.inner claims
  simp only [matchByName, h, Match.node_eq_single]
  generalize Match.single front.length stem spot.item spot.inner claims = own at hsize ⊢
  simp only [← hnodes own.2.1 own.2.2.1 hsize]
  obtain ⟨cause | result, state, below, now⟩ := own
  · rfl
  · rfl

end Synthesizer

end Rtl
