import Rtl.Entity

namespace Rtl

mutual

-- An interface class: its name, the classes it extends and its own members.
inductive InterfaceClass where
  | mk (name : String) (parents : List InterfaceClass) (members : List Member)
deriving Repr

-- A member is one signal or a nested interface. Its direction is the one seen
-- from the master.
inductive Member where
  | leaf (name : String) (direction : Direction) (width : Nat)
  | nested (name : String) (direction : Direction) (cls : InterfaceClass)
deriving Repr

end

namespace Member

def name : Member → String
  | leaf name _ _ => name
  | nested name _ _ => name

-- Adds a member to a list. One that is declared again keeps its place and
-- takes the new definition.
def put (member : Member) : List Member → List Member
  | [] => [member]
  | other :: rest =>
      if other.name = member.name then member :: rest else other :: member.put rest

def putAll (members into : List Member) : List Member :=
  members.foldl (fun acc member => member.put acc) into

end Member

namespace InterfaceClass

def name : InterfaceClass → String
  | mk name _ _ => name

def parents : InterfaceClass → List InterfaceClass
  | mk _ parents _ => parents

def members : InterfaceClass → List Member
  | mk _ _ members => members

mutual

-- The members of a class with those it inherits: first the parents' in their
-- order, then its own.
def merged : InterfaceClass → List Member
  | mk _ parents members => Member.putAll members (Member.putAll (mergedAll parents) [])

def mergedAll : List InterfaceClass → List Member
  | [] => []
  | cls :: rest => cls.merged ++ mergedAll rest

end

mutual

-- The number of declarations in a class, which bounds every unfolding of it.
def weight : InterfaceClass → Nat
  | mk _ parents members => 1 + weightOfParents parents + weightOfMembers members

def weightOfParents : List InterfaceClass → Nat
  | [] => 0
  | cls :: rest => cls.weight + weightOfParents rest

def weightOfMembers : List Member → Nat
  | [] => 0
  | member :: rest => weightOfMember member + weightOfMembers rest

def weightOfMember : Member → Nat
  | .leaf .. => 1
  | .nested _ _ cls => 1 + cls.weight

end

theorem weightOfMembers_append (front back : List Member) :
    weightOfMembers (front ++ back) = weightOfMembers front + weightOfMembers back := by
  induction front with
  | nil => simp [weightOfMembers]
  | cons member rest ih =>
      simp only [List.cons_append, weightOfMembers, ih]
      omega

theorem weightOfMembers_put (member : Member) (into : List Member) :
    weightOfMembers (member.put into) ≤ weightOfMember member + weightOfMembers into := by
  induction into with
  | nil => simp [Member.put, weightOfMembers]
  | cons other rest ih =>
      simp only [Member.put]
      split <;> simp only [weightOfMembers] <;> omega

theorem weightOfMembers_putAll (members into : List Member) :
    weightOfMembers (Member.putAll members into) ≤
      weightOfMembers members + weightOfMembers into := by
  induction members generalizing into with
  | nil => simp [Member.putAll, weightOfMembers]
  | cons member rest ih =>
      have hi := ih (member.put into)
      have hp := weightOfMembers_put member into
      simp only [Member.putAll, List.foldl_cons, weightOfMembers] at hi ⊢
      omega

mutual

theorem weightOfMembers_merged (cls : InterfaceClass) :
    weightOfMembers cls.merged < cls.weight := by
  match cls with
  | mk name parents members =>
      have hp := weightOfMembers_mergedAll parents
      have hi := weightOfMembers_putAll (mergedAll parents) []
      have ho := weightOfMembers_putAll members (Member.putAll (mergedAll parents) [])
      simp only [weightOfMembers] at hi
      simp only [merged, weight]
      omega

theorem weightOfMembers_mergedAll (parents : List InterfaceClass) :
    weightOfMembers (mergedAll parents) ≤ weightOfParents parents := by
  match parents with
  | [] => simp [mergedAll, weightOfMembers]
  | cls :: rest =>
      have hc := weightOfMembers_merged cls
      have hr := weightOfMembers_mergedAll rest
      simp only [mergedAll, weightOfMembers_append, weightOfParents]
      omega

end

mutual

def decEq : (a b : InterfaceClass) → Decidable (a = b)
  | mk n ps ms, mk n' ps' ms' =>
      match decEqParents ps ps', decEqMembers ms ms' with
      | .isTrue hp, .isTrue hm => decidable_of_iff (n = n') (by simp [hp, hm])
      | .isFalse hp, _ => .isFalse (by simp [hp])
      | _, .isFalse hm => .isFalse (by simp [hm])

def decEqParents : (xs ys : List InterfaceClass) → Decidable (xs = ys)
  | [], [] => .isTrue rfl
  | [], _ :: _ => .isFalse nofun
  | _ :: _, [] => .isFalse nofun
  | x :: xs, y :: ys =>
      match decEq x y, decEqParents xs ys with
      | .isTrue hx, .isTrue hxs => .isTrue (by rw [hx, hxs])
      | .isFalse hx, _ => .isFalse (by simp [hx])
      | _, .isFalse hxs => .isFalse (by simp [hxs])

def decEqMembers : (xs ys : List Member) → Decidable (xs = ys)
  | [], [] => .isTrue rfl
  | [], _ :: _ => .isFalse nofun
  | _ :: _, [] => .isFalse nofun
  | x :: xs, y :: ys =>
      match decEqMember x y, decEqMembers xs ys with
      | .isTrue hx, .isTrue hxs => .isTrue (by rw [hx, hxs])
      | .isFalse hx, _ => .isFalse (by simp [hx])
      | _, .isFalse hxs => .isFalse (by simp [hxs])

def decEqMember : (a b : Member) → Decidable (a = b)
  | .leaf n d w, .leaf n' d' w' => decidable_of_iff (n = n' ∧ d = d' ∧ w = w') (by simp)
  | .nested n d c, .nested n' d' c' =>
      match decEq c c' with
      | .isTrue hc => decidable_of_iff (n = n' ∧ d = d') (by simp [hc])
      | .isFalse hc => .isFalse (by simp [hc])
  | .leaf .., .nested .. => .isFalse nofun
  | .nested .., .leaf .. => .isFalse nofun

end

instance : DecidableEq InterfaceClass := decEq

end InterfaceClass

end Rtl
