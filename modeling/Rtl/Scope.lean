import Rtl.Id

namespace Rtl

-- What a name is given to. A component counts by its place in the order in
-- which the components are written.
inductive Owner where
  | port (id : PortId)
  | signal (id : SignalId)
  | process (id : ProcessId)
  | type (id : TypeId)
  | component (position : Nat)
deriving DecidableEq, Repr

structure NameRequest where
  owner : Owner
  candidate : String
deriving DecidableEq, Repr

-- The names in use on one level, as they are compared, and those given to
-- someone, as they are written.
structure ScopeLevel where
  used : List String
  owned : List (NameRequest × String)
deriving DecidableEq, Repr

namespace ScopeLevel

def empty : ScopeLevel := ⟨[], []⟩

end ScopeLevel

-- A stack of levels over a base of reserved words. A name in use on any level
-- is taken. `nested` has the innermost level first.
structure Scope where
  nested : List ScopeLevel
  base : ScopeLevel
  ignoreCase : Bool
deriving DecidableEq, Repr

namespace Scope

-- The form in which names are compared. Case is that of ASCII letters alone.
def normalize (ignoreCase : Bool) (name : String) : String :=
  if ignoreCase then name.toLower else name

def ofWords (words : List String) (ignoreCase : Bool) : Scope :=
  ⟨[], ⟨words.map (normalize ignoreCase), []⟩, ignoreCase⟩

def reserve (scope : Scope) (words : List String) : Scope :=
  let keys := words.map (normalize scope.ignoreCase)
  { scope with base := { scope.base with used := scope.base.used ++ keys } }

def push (scope : Scope) : Scope := { scope with nested := .empty :: scope.nested }

-- Forgets the innermost level. The base stays.
def pop (scope : Scope) : Scope := { scope with nested := scope.nested.tail }

-- All levels, the innermost first.
def levels (scope : Scope) : List ScopeLevel := scope.nested ++ [scope.base]

def depth (scope : Scope) : Nat := scope.levels.length

def usedWords (scope : Scope) : List String := scope.levels.flatMap ScopeLevel.used

def isUsed (scope : Scope) (name : String) : Bool :=
  scope.usedWords.contains (normalize scope.ignoreCase name)

-- The name that a request was given on a level that is still open.
def owned? (scope : Scope) (request : NameRequest) : Option String :=
  scope.levels.findSome? fun level => level.owned.lookup request

def numbered (candidate : String) (number : Nat) : String :=
  candidate ++ "_" ++ toString number

-- The candidate if it is free, or else with the least number that makes it so.
-- There are fewer words in use than numbers tried.
def freeName (scope : Scope) (candidate : String) : String :=
  let words := scope.usedWords
  let isFree (name : String) := !words.contains (normalize scope.ignoreCase name)
  if isFree candidate then candidate
  else
    let numbers := List.range (words.length + 1)
    match numbers.find? fun number => isFree (numbered candidate number) with
    | some number => numbered candidate number
    | none => candidate

-- Enters a name on the innermost level.
def enter (scope : Scope) (request : NameRequest) (name : String) : Scope :=
  let key := normalize scope.ignoreCase name
  let add (level : ScopeLevel) : ScopeLevel := ⟨key :: level.used, (request, name) :: level.owned⟩
  match scope.nested with
  | [] => { scope with base := add scope.base }
  | level :: outer => { scope with nested := add level :: outer }

-- The name for a request: the same as before if it was made before, and a free
-- one otherwise.
def checkedName (scope : Scope) (owner : Owner) (candidate : String) : String × Scope :=
  let request : NameRequest := ⟨owner, candidate⟩
  match scope.owned? request with
  | some name => (name, scope)
  | none =>
      let name := scope.freeName candidate
      (name, scope.enter request name)

theorem pop_push (scope : Scope) : scope.push.pop = scope := rfl

end Scope

end Rtl
