import Rtl.Proofs.Interface.Purposes

namespace Rtl

-- What a table of types is asked for: any type, the plain one of a width, a new
-- enumeration or array, or the type of a constant of a width.
inductive TypeRequest where
  | intern (type : HwType)
  | ofWidth (width : Nat)
  | enumeration (name : Option String) (labels : List String)
  | array (name : Option String) (element : TypeId) (size : Nat)
  | constant (value width : Nat)
deriving DecidableEq, Repr

namespace TypeRequest

-- The type that is asked for.
def type : TypeRequest → HwType
  | intern type => type
  | ofWidth width => .bits width .plain false
  | enumeration name labels => .enumeration name labels
  | array name element size => .array name element size
  | constant _ width => .bits width .plain false

def grant (table : TypeTable) : TypeRequest → TypeId × TypeTable
  | intern type => table.intern type
  | ofWidth width => table.ofWidth width
  | enumeration name labels => table.declare (.enumeration name labels)
  | array name element size => table.declare (.array name element size)
  | constant value width =>
      let (made, table) := Value.ofNat table value width
      (made.type, table)

-- Whichever way a type is asked for, it is interned.
theorem grant_eq_intern (table : TypeTable) (request : TypeRequest) :
    request.grant table = table.intern request.type := by
  have hplain (width : Nat) : (if width = 1 then HwType.bit else .vector width) =
      .bits width .plain false := by
    split
    · rename_i hone
      rw [hone]
      rfl
    · rename_i hne
      rw [HwType.vector, beq_false_of_ne hne]
  cases request with
  | intern | enumeration | array => rfl
  | ofWidth width => rw [grant, type, TypeTable.ofWidth, hplain]
  | constant value width => rw [grant, type, Value.ofNat, TypeTable.ofWidth, hplain]

end TypeRequest

namespace TypeTable

variable {table : TypeTable} {requests : List TypeRequest} {request one other : TypeRequest}
  {id : TypeId} {i j n : Nat}

-- The table behind some requests, made one after the other.
def behind (table : TypeTable) (requests : List TypeRequest) : TypeTable :=
  requests.foldl (fun table request => (request.grant table).2) table

-- What each of the requests gets.
def answers (table : TypeTable) : List TypeRequest → List TypeId
  | [] => []
  | request :: rest => (request.grant table).1 :: (request.grant table).2.answers rest

theorem growsTo_behind (table : TypeTable) (requests : List TypeRequest) :
    table.GrowsTo (table.behind requests) := by
  refine List.foldlRecOn requests _ (.refl table) fun now hnow request _ => hnow.trans ?_
  rw [request.grant_eq_intern]
  exact growsTo_intern now request.type

theorem growsTo_behind_take (table : TypeTable) (requests : List TypeRequest) (h : i ≤ j) :
    (table.behind (requests.take i)).GrowsTo (table.behind (requests.take j)) := by
  obtain ⟨count, rfl⟩ := Nat.exists_eq_add_of_le h
  rw [List.take_add, behind, behind, List.foldl_append]
  exact growsTo_behind _ _

theorem length_answers (table : TypeTable) (requests : List TypeRequest) :
    (table.answers requests).length = requests.length := by
  induction requests generalizing table with
  | nil => rfl
  | cons request rest ih => rw [answers, List.length_cons, List.length_cons, ih]

-- A request is granted by the table behind those made before it.
theorem intern_of_answer (hrequest : requests[i]? = some request)
    (hid : (table.answers requests)[i]? = some id) :
    (table.behind (requests.take i)).intern request.type =
      (id, table.behind (requests.take (i + 1))) := by
  induction requests generalizing table i with
  | nil => cases hrequest
  | cons first rest ih =>
      cases i with
      | zero =>
          obtain rfl := Option.some.inj hrequest
          obtain rfl := Option.some.inj hid
          rw [← TypeRequest.grant_eq_intern]
          rfl
      | succ i => exact ih hrequest hid

theorem exists_answer (table : TypeTable) (h : requests[i]? = some request) :
    ∃ id, (table.answers requests)[i]? = some id := by
  obtain ⟨hlt, -⟩ := List.getElem?_eq_some_iff.mp h
  exact ⟨_, List.getElem?_eq_getElem ((table.length_answers requests).symm ▸ hlt)⟩

-- What a request got denotes the type that it asked for from then on.
theorem get?_of_answer (hrequest : requests[i]? = some request)
    (hid : (table.answers requests)[i]? = some id) (hlt : i < n) :
    (table.behind (requests.take n)).get? id = some request.type := by
  have hgrant := intern_of_answer hrequest hid
  have hget := get?_intern (table.behind (requests.take i)) request.type
  rw [hgrant] at hget
  exact (growsTo_behind_take table requests hlt).get? hget

-- Two requests for one scalar type get the same, whatever is asked for in between.
theorem answer_eq_of_type_eq (hle : i ≤ j) (hone : requests[i]? = some one)
    (hother : requests[j]? = some other) (hscalar : one.type.needsDeclaration = false)
    (hsame : one.type = other.type) :
    (table.answers requests)[i]? = (table.answers requests)[j]? := by
  obtain ⟨id, hid⟩ := table.exists_answer hone
  obtain ⟨id', hid'⟩ := table.exists_answer hother
  obtain rfl | hlt := Nat.eq_or_lt_of_le hle
  · rfl
  · have hfirst := intern_of_intern hscalar (intern_of_answer hone hid)
    have hlater := intern_of_growsTo hscalar (growsTo_behind_take table requests hlt) hfirst
    have hgrant := intern_of_answer hother hid'
    rw [← hsame, hlater] at hgrant
    obtain ⟨rfl, -⟩ := Prod.mk.inj hgrant
    rw [hid, hid']

-- A type that needs a declaration gets the next place of the table.
theorem index_of_answer (hrequest : requests[i]? = some request)
    (hid : (table.answers requests)[i]? = some id) (hdeclared : request.type.needsDeclaration) :
    id.index = (table.behind (requests.take i)).size := by
  have hgrant := intern_of_answer hrequest hid
  rw [intern, if_pos hdeclared] at hgrant
  exact congrArg (fun made => made.1.index) hgrant.symm

theorem index_lt_of_answer (hone : requests[i]? = some one) (hother : requests[j]? = some other)
    (hid : (table.answers requests)[i]? = some id) {id' : TypeId}
    (hid' : (table.answers requests)[j]? = some id') (hlt : i < j)
    (hdeclared : other.type.needsDeclaration) : id.index < id'.index := by
  rw [index_of_answer hother hid' hdeclared]
  obtain ⟨hindex, -⟩ := Array.getElem?_eq_some_iff.mp (get?_of_answer hone hid hlt)
  exact hindex

-- Whatever is asked of a table, what a request got denotes the type that it asked for from
-- then on. Two requests for scalar types get the same exactly if the types are equal, and
-- a request for an enumeration or an array gets what no other request gets.
theorem answers_identify (table : TypeTable) (requests : List TypeRequest) :
    (table.answers requests).length = requests.length ∧
    (∀ (i : Nat) (request : TypeRequest) (id : TypeId), requests[i]? = some request →
      (table.answers requests)[i]? = some id →
        ∀ n, i < n → (table.behind (requests.take n)).get? id = some request.type) ∧
    (∀ (i j : Nat) (one other : TypeRequest), requests[i]? = some one →
      requests[j]? = some other → one.type.needsDeclaration = false →
        other.type.needsDeclaration = false →
          ((table.answers requests)[i]? = (table.answers requests)[j]? ↔
            one.type = other.type)) ∧
    ∀ (i j : Nat) (one : TypeRequest), requests[i]? = some one → one.type.needsDeclaration →
      i ≠ j → (table.answers requests)[i]? ≠ (table.answers requests)[j]? := by
  have htypes {i j : Nat} {one other : TypeRequest} (hone : requests[i]? = some one)
      (hother : requests[j]? = some other)
      (hsame : (table.answers requests)[i]? = (table.answers requests)[j]?) :
      one.type = other.type := by
    obtain ⟨id, hid⟩ := table.exists_answer hone
    have hdenoted := get?_of_answer hone hid (Nat.lt_succ_of_le (Nat.le_max_left i j))
    have hdenoted' :=
      get?_of_answer hother (hsame ▸ hid) (Nat.lt_succ_of_le (Nat.le_max_right i j))
    exact Option.some.inj (hdenoted.symm.trans hdenoted')
  refine ⟨table.length_answers requests,
    fun i request id hrequest hid n hlt => get?_of_answer hrequest hid hlt, ?_, ?_⟩
  · intro i j one other hone hother hscalar hscalar'
    refine ⟨htypes hone hother, fun hsame => ?_⟩
    obtain hle | hle := Nat.le_total i j
    · exact answer_eq_of_type_eq hle hone hother hscalar hsame
    · exact (answer_eq_of_type_eq hle hother hone hscalar' hsame.symm).symm
  · intro i j one hone hdeclared hne hsame
    obtain ⟨id, hid⟩ := table.exists_answer hone
    have hid' := hsame ▸ hid
    obtain ⟨hlt, -⟩ := List.getElem?_eq_some_iff.mp hid'
    rw [length_answers] at hlt
    have hother := List.getElem?_eq_getElem hlt
    -- The other one asks for the same type, so whichever comes second gets a larger place.
    have hdeclared' := htypes hone hother hsame ▸ hdeclared
    obtain hlt | hlt := Nat.lt_or_gt_of_ne hne
    · exact Nat.lt_irrefl _ (index_lt_of_answer hone hother hid hid' hlt hdeclared')
    · exact Nat.lt_irrefl _ (index_lt_of_answer hother hone hid' hid hlt hdeclared)

-- Eight bits are the same type however they come about. Two enumerations that look the
-- same are not.
example : empty.answers [.ofWidth 8, .enumeration (some "state") ["idle", "busy"],
      .intern (.bits 8 .plain false), .array none ⟨0⟩ 4, .ofWidth 1,
      .intern (.enumeration (some "state") ["idle", "busy"]), .constant 5 8,
      .intern (.vector 1)] =
    [⟨0⟩, ⟨1⟩, ⟨0⟩, ⟨2⟩, ⟨3⟩, ⟨4⟩, ⟨0⟩, ⟨5⟩] := by
  decide

end TypeTable

end Rtl
