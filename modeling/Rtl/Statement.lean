import Rtl.Expr

namespace Rtl

-- A statement of a process body. Each carries an identifier; later statements
-- have larger ones.
inductive Statement where
  -- An assignment, to a part of the destination if there are indexes.
  | assign (id : StatementId) (destination : SignalId) (source : Expr)
      (indexes : Option (List Expr)) (onEvent : Bool)
  -- A chain of branches. Each condition is a list of parts that all must hold.
  | branch (id : StatementId) (condition : List Expr) (body : List Statement)
      (elifs : List (List Expr × List Statement)) (otherwise : List Statement)
  -- A selection. A case without a key is the default.
  | select (id : StatementId) (subject : Expr) (cases : List (Option Expr × List Statement))
  | wait (id : StatementId) (timed : Bool) (duration : Option Nat)
deriving Repr

namespace Statement

def id : Statement → StatementId
  | .assign id _ _ _ _ => id
  | .branch id _ _ _ _ => id
  | .select id _ _ => id
  | .wait id _ _ => id

mutual

-- A statement and all that is nested in it, each before what it contains.
def walk : Statement → List Statement
  | .assign id destination source indexes onEvent =>
      [.assign id destination source indexes onEvent]
  | .branch id condition body elifs otherwise =>
      .branch id condition body elifs otherwise ::
        (walkAll body ++ walkElifs elifs ++ walkAll otherwise)
  | .select id subject cases => .select id subject cases :: walkCases cases
  | .wait id timed duration => [.wait id timed duration]

def walkAll : List Statement → List Statement
  | [] => []
  | s :: rest => s.walk ++ walkAll rest

def walkElifs : List (List Expr × List Statement) → List Statement
  | [] => []
  | (_, body) :: rest => walkAll body ++ walkElifs rest

def walkCases : List (Option Expr × List Statement) → List Statement
  | [] => []
  | (_, body) :: rest => walkAll body ++ walkCases rest

end

mutual

-- The largest identifier in a statement and all that is nested in it.
def maxId : Statement → Nat
  | .assign id _ _ _ _ => id.index
  | .branch id _ body elifs otherwise =>
      max id.index (max (maxIdAll body) (max (maxIdElifs elifs) (maxIdAll otherwise)))
  | .select id _ cases => max id.index (maxIdCases cases)
  | .wait id _ _ => id.index

-- Zero for no statement, which never exceeds an identifier it is compared to.
def maxIdAll : List Statement → Nat
  | [] => 0
  | s :: rest => max s.maxId (maxIdAll rest)

def maxIdElifs : List (List Expr × List Statement) → Nat
  | [] => 0
  | (_, body) :: rest => max (maxIdAll body) (maxIdElifs rest)

def maxIdCases : List (Option Expr × List Statement) → Nat
  | [] => 0
  | (_, body) :: rest => max (maxIdAll body) (maxIdCases rest)

end

def target? : Statement → Option (SignalId × StatementId)
  | .assign id destination _ _ _ => some (destination, id)
  | _ => none

-- The assignments of a body, at every depth.
def targets (body : List Statement) : List (SignalId × StatementId) :=
  (walkAll body).filterMap target?

theorem mem_walk_self (s : Statement) : s ∈ s.walk := by
  cases s <;> simp [walk]

end Statement

end Rtl
