import Rtl.Proofs.Interface.Mirror
import Rtl.Proofs.Interface.Sides

namespace Rtl

namespace Direction

-- A direction as it is seen from outside a member that is turned around.
def facing (direction : Direction) (turned : Bool) : Direction :=
  if turned then direction.opposite else direction

-- Turning a direction around turns every agreement with it around.
theorem eq_facing_iff {found direction : Direction} (hfound : found ≠ .inout)
    (hdirection : direction ≠ .inout) (turned agrees : Bool) :
    (found = direction.facing turned ↔ agrees = true) ↔
      decide (found = direction) = (agrees != turned) := by
  cases found <;> cases direction <;> cases turned <;> cases agrees <;>
    simp_all [facing, opposite]

theorem agrees_iff_eq_facing {found direction : Direction} (hfound : found ≠ .inout)
    (hdirection : direction ≠ .inout) (agrees : Bool) :
    (found = direction ↔ agrees = true) ↔ found = direction.facing !agrees := by
  cases found <;> cases direction <;> cases agrees <;> simp_all [facing, opposite]

end Direction

namespace Forest

-- The directions of all entries as they are seen at the root. What is inside a
-- member of direction in is turned around once more.
def facing (turned : Bool) : Forest Direction → Forest Direction
  | nil => nil
  | cons name direction inner rest =>
      cons name (direction.facing turned) (inner.facing (turned != (direction == .input)))
        (rest.facing turned)

-- The leaves of a forest, each with the name of the port that it is looked for
-- and the direction that the port has if it agrees.
def demands (candidate : String) (turned : Bool) (path : List String)
    (forest : Forest Direction) : List (String × Direction) :=
  ((forest.facing turned).leaves path).map fun (path, direction) =>
    (candidate ++ String.join path, direction)

variable {candidate name : String} {turned : Bool} {path : List String} {direction : Direction}
  {rest : Forest Direction}

theorem demands_leaf :
    (cons name direction nil rest).demands candidate turned path =
      [(candidate ++ String.join (path ++ [name]), direction.facing turned)] ++
        rest.demands candidate turned path :=
  rfl

theorem demands_nested {first : String} {item : Direction} {below beside : Forest Direction} :
    (cons name direction (cons first item below beside) rest).demands candidate turned path =
      (cons first item below beside).demands candidate (turned != (direction == .input))
          (path ++ [name]) ++
        rest.demands candidate turned path := by
  simp only [demands, facing, leaves, List.map_append]

end Forest

namespace Claims

variable {before now last claims : Claims} {name : String} {port : PortId}
  {names more : List String}

-- A port of this name that nobody holds. Case does not count.
def Unclaimed (claims : Claims) (port : PortId) (name : String) : Prop :=
  ∃ entry, claims.ports.get? port = some entry ∧ entry.owner = none ∧
    entry.name.toLower = name.toLower

theorem nodup_findUnclaimed (claims : Claims) (name : String) :
    (claims.findUnclaimed name).Nodup := by
  have hindexes : (claims.ports.entries.map (·.1)).map Id.index =
      claims.ports.toList.zipIdx.map Prod.snd := by
    simp [Arena.entries, Function.comp_def]
  have hentries : (claims.ports.entries.map (·.1)).Nodup := by
    refine List.Nodup.of_map Id.index ?_
    rw [hindexes, List.zipIdx_map_snd]
    exact List.nodup_range'
  have hfound : claims.findUnclaimed name = (claims.ports.entries.filter fun entry =>
      entry.2.owner.isNone && entry.2.name.toLower == name.toLower).map (·.1) := by
    rw [findUnclaimed, ← List.filterMap_eq_map, List.filterMap_filter]
    rfl
  rw [hfound]
  exact hentries.sublist (List.filter_sublist.map _)

theorem findUnclaimed_eq_singleton_iff :
    claims.findUnclaimed name = [port] ↔ ∀ other, claims.Unclaimed other name ↔ other = port := by
  constructor
  · intro h other
    rw [← List.mem_singleton, ← h, mem_findUnclaimed_iff, Unclaimed]
  · intro h
    refine List.perm_singleton.mp ((List.perm_ext_iff_of_nodup (nodup_findUnclaimed ..)
      (List.nodup_singleton port)).mpr fun other => ?_)
    rw [mem_findUnclaimed_iff, List.mem_singleton, ← h, Unclaimed]

-- What is left once the only unclaimed port of each of these names was claimed.
structure Took (before : Claims) (names : List String) (now : Claims) : Prop where
  direction : now.direction? = before.direction?
  findUnclaimed : ∀ name, now.findUnclaimed name =
    if name.toLower ∈ names.map String.toLower then [] else before.findUnclaimed name

theorem Took.none (claims : Claims) : claims.Took [] claims :=
  ⟨rfl, fun _ => rfl⟩

theorem Took.trans (h : before.Took names now) (hmore : now.Took more last) :
    before.Took (names ++ more) last := by
  refine ⟨hmore.direction.trans h.direction, fun name => ?_⟩
  rw [hmore.findUnclaimed, h.findUnclaimed, List.map_append]
  by_cases hfirst : name.toLower ∈ names.map String.toLower <;>
    by_cases hmore : name.toLower ∈ more.map String.toLower <;> simp [hfirst, hmore]

theorem Took.claim (h : claims.findUnclaimed name = [port]) (leaf : NodeId) :
    claims.Took [name] (claims.claim port leaf) := by
  refine ⟨(Narrowed.claim h leaf).direction?_eq, fun wanted => ?_⟩
  have hport : port ∈ claims.findUnclaimed name := h ▸ List.mem_singleton_self port
  simp only [findUnclaimed_claim, List.map_singleton, List.mem_singleton]
  by_cases hsame : wanted.toLower = name.toLower
  · rw [if_pos hsame, claims.findUnclaimed_congr hsame, h]
    simp
  · rw [if_neg hsame, List.filter_eq_self]
    intro other hother
    have hne : other ≠ port := by
      rintro rfl
      obtain ⟨entry, hentry, -, hname⟩ := mem_findUnclaimed_iff.mp hport
      obtain ⟨_, hsameEntry, -, hwanted⟩ := mem_findUnclaimed_iff.mp hother
      obtain rfl := Option.some.inj (hentry.symm.trans hsameEntry)
      exact hsame (hwanted.symm.trans hname)
    simpa using hne

-- A name has a single unclaimed port, and the port has the direction given with
-- the name exactly if `agrees`.
def Meets (claims : Claims) (agrees : Bool) (wanted : String × Direction) : Prop :=
  ∃ port, claims.findUnclaimed wanted.1 = [port] ∧
    (claims.direction? port = some wanted.2 ↔ agrees = true)

-- Every name is met, each by a port of its own.
def MeetsAll (claims : Claims) (agrees : Bool) (wanted : List (String × Direction)) : Prop :=
  (∀ one ∈ wanted, claims.Meets agrees one) ∧ (wanted.map (·.1.toLower)).Nodup

variable {agrees : Bool} {front back : List (String × Direction)}

theorem Took.meets_iff (h : before.Took names now) {one : String × Direction} :
    now.Meets agrees one ↔
      one.1.toLower ∉ names.map String.toLower ∧ before.Meets agrees one := by
  simp only [Meets, h.findUnclaimed, h.direction]
  by_cases htaken : one.1.toLower ∈ names.map String.toLower <;> simp [htaken]

theorem meetsAll_singleton_iff {one : String × Direction} {port : PortId}
    (h : claims.findUnclaimed one.1 = [port]) :
    claims.MeetsAll agrees [one] ↔ (claims.direction? port = some one.2 ↔ agrees = true) := by
  simp [MeetsAll, Meets, h]

theorem MeetsAll.left (h : claims.MeetsAll agrees (front ++ back)) :
    claims.MeetsAll agrees front :=
  ⟨(List.forall_mem_append.mp h.1).1, (List.map_append .. ▸ h.2).of_append_left⟩

-- What meets some names first leaves what meets the others.
theorem Took.meetsAll_append_iff (h : before.Took (front.map (·.1)) now) :
    before.MeetsAll agrees (front ++ back) ↔
      before.MeetsAll agrees front ∧ now.MeetsAll agrees back := by
  simp only [MeetsAll, List.forall_mem_append, List.map_append, List.nodup_append', h.meets_iff,
    List.map_map, List.Disjoint]
  constructor
  · rintro ⟨⟨hfront, hback⟩, hnodup, hnodup', hdisjoint⟩
    refine ⟨⟨hfront, hnodup⟩, fun one hmem => ⟨fun htaken => ?_, hback one hmem⟩, hnodup'⟩
    exact hdisjoint htaken (List.mem_map_of_mem (f := (·.1.toLower)) hmem)
  · rintro ⟨⟨hfront, hnodup⟩, hback, hnodup'⟩
    refine ⟨⟨hfront, fun one hmem => (hback one hmem).2⟩, hnodup, hnodup', ?_⟩
    intro lower htaken hmem
    obtain ⟨one, hone, rfl⟩ := List.mem_map.mp hmem
    exact (hback one hone).1 htaken

end Claims

namespace Match

open Claims

variable {id : Nat} {name stem candidate : String} {path : List String} {turned agrees : Bool}
  {claims now : Claims} {forest : Forest NodeState}

theorem settle_eq_ok_iff {agreed : List Bool} (hne : agreed ≠ []) {side : Side} :
    settle name agreed = .ok side ↔ ∀ other ∈ agreed, other = (side == .master) := by
  refine ⟨eq_of_settle, fun h => ?_⟩
  obtain ⟨first, rest, rfl⟩ := List.exists_cons_of_ne_nil hne
  cases side with
  | master =>
      have hall : (first :: rest).all (· == true) = true := by simpa using h
      rw [settle, if_pos hall]
  | slave =>
      have hfalse : ∀ other ∈ first :: rest, other = false := h
      have hnone : (first :: rest).all (· == false) = true := by simpa using hfalse
      have hall : ¬ (first :: rest).all (· == true) = true := by
        simp [(List.forall_mem_cons.mp hfalse).1]
      rw [settle, if_neg hall, if_pos hnone]

theorem nestedAgrees_eq_iff {side : Side} {direction : Direction} (h : direction ≠ .inout) :
    nestedAgrees side direction = (agrees != turned) ↔
      (side == .master) = (agrees != (turned != (direction == .input))) := by
  cases side <;> cases direction <;> cases agrees <;> cases turned <;> simp_all [nestedAgrees]

-- Members that agree as one are of one side.
theorem exists_settle {agreed : List Bool} {value : Bool} (hne : agreed ≠ [])
    (h : ∀ other ∈ agreed, other = value) (name : String) :
    ∃ side, settle name agreed = .ok side ∧ (side == .master) = value := by
  obtain ⟨side, rfl⟩ : ∃ side : Side, (side == .master) = value := by
    cases value with
    | true => exact ⟨.master, rfl⟩
    | false => exact ⟨.slave, rfl⟩
  exact ⟨side, (settle_eq_ok_iff hne).mpr h, rfl⟩

-- A leaf is on the master side exactly if its port has its master direction.
theorem bindLeaf_of_findUnclaimed (id : Nat) (leaf : NodeState) {port : PortId}
    (h : claims.findUnclaimed name = [port]) :
    ∃ bound, bindLeaf ⟨id⟩ name leaf claims = .ok (bound, claims.claim port ⟨id⟩) ∧
      bound.port = some port ∧
        (bound.side == .master) = decide (claims.direction? port = some leaf.masterDirection) := by
  have hdirection : claims.direction? port = (claims.ports.get? port).map PortClaim.direction := rfl
  simp only [bindLeaf, h, hdirection]
  refine ⟨_, rfl, rfl, ?_⟩
  by_cases hagrees :
      (claims.ports.get? port).map PortClaim.direction = some leaf.masterDirection
  · rw [if_pos hagrees, decide_eq_true hagrees]
    rfl
  · rw [if_neg hagrees, decide_eq_false hagrees]
    rfl

theorem port_of_bindLeaf {leaf bound : NodeState} {port : PortId}
    (hfound : claims.findUnclaimed name = [port])
    (h : bindLeaf ⟨id⟩ name leaf claims = .ok (bound, now)) :
    bound.port = some port ∧
      (bound.side == .master) = decide (claims.direction? port = some leaf.masterDirection) := by
  obtain ⟨_, hsame, hbound⟩ := bindLeaf_of_findUnclaimed id leaf hfound
  obtain ⟨rfl, -⟩ := Prod.mk.inj (Except.ok.inj (h.symm.trans hsame))
  exact hbound

-- It agrees, seen from outside, exactly if its port does.
theorem meetsAll_leaf_iff {leaf bound : NodeState} {port : PortId}
    (hfound : claims.findUnclaimed name = [port])
    (h : bindLeaf ⟨id⟩ name leaf claims = .ok (bound, now))
    (hdirected : leaf.masterDirection ≠ .inout)
    (hports : ∀ port, claims.direction? port ≠ some .inout) (turned agrees : Bool) :
    claims.MeetsAll agrees [(name, leaf.masterDirection.facing turned)] ↔
      (bound.side == .master) = (agrees != turned) := by
  have hport : port ∈ claims.findUnclaimed name := hfound ▸ List.mem_singleton_self port
  obtain ⟨entry, hentry, -⟩ := mem_findUnclaimed_iff.mp hport
  have hdirection : claims.direction? port = some entry.direction := by
    rw [direction?, hentry, Option.map_some]
  have hentryDirection : entry.direction ≠ .inout := fun h => hports port (h ▸ hdirection)
  rw [meetsAll_singleton_iff hfound, (port_of_bindLeaf hfound h).2, hdirection]
  simp only [Option.some.injEq]
  exact Direction.eq_facing_iff hentryDirection hdirected turned agrees

theorem join_snoc (candidate name : String) (path : List String) :
    candidate ++ String.join path ++ name = candidate ++ String.join (path ++ [name]) := by
  simp [String.join_append, String.append_assoc]

-- Members that are matched take one port for each name that they look for.
theorem Matched.took {later : Forest NodeState} {last : Claims} {agreed : List Bool}
    (h : Matched id (candidate ++ String.join path) forest claims agreed later last)
    (turned : Bool) :
    claims.Took (((forest.map NodeState.masterDirection).demands candidate turned path).map (·.1))
      last := by
  generalize hstem : candidate ++ String.join path = stem at h
  induction h generalizing path turned with
  | nil id stem claims => exact .none claims
  | leaf hfound hbound hrest ih =>
      rw [← hstem, join_snoc] at hfound
      exact (Took.claim hfound _).trans (ih turned hstem)
  | @nested id stem name _ state _ _ _ _ _ _ _ _ _ _ _ _ _ _ hinner hside hrest ihi ihr =>
      have hbelow : candidate ++ String.join (path ++ [name]) = stem ++ name := by
        rw [← hstem, join_snoc]
      simp only [Forest.map, Forest.demands_nested, List.map_append]
      exact (ihi (turned != (state.masterDirection == .input)) hbelow).trans (ihr turned hstem)

-- If they agree as one, what they look for was met.
theorem Matched.meetsAll {later : Forest NodeState} {last : Claims} {agreed : List Bool}
    (h : Matched id (candidate ++ String.join path) forest claims agreed later last)
    (hagreed : ∀ other ∈ agreed, other = (agrees != turned))
    (hdirected : forest.All fun state => state.masterDirection ≠ .inout)
    (hports : ∀ port, claims.direction? port ≠ some .inout) :
    claims.MeetsAll agrees
      ((forest.map NodeState.masterDirection).demands candidate turned path) := by
  generalize hstem : candidate ++ String.join path = stem at h
  induction h generalizing path turned with
  | nil id stem claims => exact ⟨nofun, List.nodup_nil⟩
  | @leaf id _ _ _ _ _ _ _ _ _ _ hfound hbound hrest ih =>
      obtain ⟨hfirst, hothers⟩ := List.forall_mem_cons.mp hagreed
      rw [← hstem, join_snoc] at hfound hbound
      have htook := Took.claim hfound ⟨id⟩
      have hlater := ih hothers hdirected.2.2 (htook.direction ▸ hports) hstem
      have hmeets := (meetsAll_leaf_iff hfound hbound hdirected.1 hports turned agrees).mpr hfirst
      exact (Took.meetsAll_append_iff htook).mpr ⟨hmeets, hlater⟩
  | @nested id stem name _ state _ _ _ _ _ _ _ _ _ _ _ _ _ _ hinner hside hrest ihi ihr =>
      obtain ⟨hfirst, hothers⟩ := List.forall_mem_cons.mp hagreed
      obtain ⟨hdirection, hdirecti, hdirectr⟩ := hdirected
      have hbelow : candidate ++ String.join (path ++ [name]) = stem ++ name := by
        rw [← hstem, join_snoc]
      rw [nestedAgrees_eq_iff hdirection] at hfirst
      rw [← hbelow] at hinner
      have htook := hinner.took (turned != (state.masterDirection == .input))
      have hmeets := ihi (hfirst ▸ eq_of_settle hside) hdirecti hports hbelow
      have hlater := ihr hothers hdirectr (htook.direction ▸ hports) hstem
      simp only [Forest.map, Forest.demands_nested]
      exact (Took.meetsAll_append_iff htook).mpr ⟨hmeets, hlater⟩

-- If it is met, they can be matched.
theorem exists_agreed_of_meetsAll (id : Nat)
    (hdirected : forest.All fun state => state.masterDirection ≠ .inout)
    (hports : ∀ port, claims.direction? port ≠ some .inout)
    (h : claims.MeetsAll agrees
      ((forest.map NodeState.masterDirection).demands candidate turned path)) :
    ∃ agreed, (members id (candidate ++ String.join path) forest claims).agreed = .ok agreed ∧
      ∀ other ∈ agreed, other = (agrees != turned) := by
  induction forest generalizing id path turned claims with
  | nil => exact ⟨[], rfl, nofun⟩
  | cons name state inner rest ihi ihr =>
      obtain ⟨hdirection, hdirecti, hdirectr⟩ := hdirected
      cases inner with
      | nil =>
          simp only [Forest.map, Forest.demands_leaf] at h
          obtain ⟨port, hfound, -⟩ := h.left.1 _ (List.mem_singleton_self _)
          obtain ⟨bound, hbound, -⟩ := bindLeaf_of_findUnclaimed id state hfound
          have htook := Took.claim hfound ⟨id⟩
          obtain ⟨hmeets, hlater⟩ := (Took.meetsAll_append_iff htook).mp h
          have hfirst := (meetsAll_leaf_iff hfound hbound hdirection hports turned agrees).mp hmeets
          obtain ⟨others, hothers, hall⟩ :=
            ihr (id + 1) hdirectr (htook.direction ▸ hports) hlater
          refine ⟨(bound.side == .master) :: others, ?_, List.forall_mem_cons.mpr ⟨hfirst, hall⟩⟩
          simp only [members, join_snoc, hbound, Attempt.after, hothers]
          rfl
      | cons first item below beside =>
          simp only [Forest.map, Forest.demands_nested] at h
          obtain ⟨within, hwithin, hagree⟩ := ihi (id + 1) hdirecti hports h.left
          obtain ⟨side, hsettled, hside⟩ := exists_settle (matched_of_agreed hwithin).ne_nil hagree
            (candidate ++ String.join (path ++ [name]))
          have htook :=
            (matched_of_agreed hwithin).took (turned != (state.masterDirection == .input))
          obtain ⟨-, hlater⟩ := (Took.meetsAll_append_iff htook).mp h
          have hfirst := (nestedAgrees_eq_iff hdirection).mpr hside
          obtain ⟨others, hothers, hall⟩ :=
            ihr (id + 1 + (Forest.cons first item below beside).size) hdirectr
              (htook.direction ▸ hports) hlater
          refine ⟨nestedAgrees side state.masterDirection :: others, ?_,
            List.forall_mem_cons.mpr ⟨hfirst, hall⟩⟩
          simp only [members, join_snoc, hwithin, Except.bind, hsettled, Attempt.after, hothers]
          rfl

-- Members agree as one exactly if each leaf has the one port of its name, all
-- names differ, and all directions agree as one.
theorem members_agreed_iff (turned agrees : Bool)
    (hdirected : forest.All fun state => state.masterDirection ≠ .inout)
    (hports : ∀ port, claims.direction? port ≠ some .inout) :
    (∃ agreed, (members id (candidate ++ String.join path) forest claims).agreed = .ok agreed ∧
        ∀ other ∈ agreed, other = (agrees != turned)) ↔
      claims.MeetsAll agrees
        ((forest.map NodeState.masterDirection).demands candidate turned path) := by
  constructor
  · rintro ⟨agreed, hagreed, hall⟩
    exact (matched_of_agreed hagreed).meetsAll hall hdirected hports
  · exact exists_agreed_of_meetsAll id hdirected hports

end Match

end Rtl
