import Mathlib
import Rtl.Dialect

namespace Rtl

-- The operators that both dialects write between two operands and that have a
-- precedence.
def Operator.betweenOperands : List Operator :=
  [.mul, .div, .add, .sub, .and, .xor, .or, .ne, .gt, .lt, .ge, .le]

abbrev BinaryOperator := { op : Operator // op ∈ Operator.betweenOperands }

namespace BinaryOperator

-- The level of an operator. A lower one binds tighter.
def level (op : BinaryOperator) : Nat := op.val.precedence.getD 0

-- The operators with the words that a dialect writes for them.
def words (dialect : Dialect) : List (String × BinaryOperator) :=
  let written := match dialect with
    | .vhdl => ["*", "/", "+", "-", "AND", "XOR", "OR", "/=", ">", "<", ">=", "<="]
    | .simModel => ["*", "//", "+", "-", "&", "^", "|", "!=", ">", "<", ">=", "<="]
  written.zip Operator.betweenOperands.attach

-- The word that a dialect writes for an operator.
def word (dialect : Dialect) (op : BinaryOperator) : String :=
  (((words dialect).find? (·.2 == op)).map (·.1)).getD ""

end BinaryOperator

namespace Precedence

-- What an expression says once its operators are grouped.
inductive Tree where
  | name (text : String)
  | negation (operand : Tree)
  | binary (op : BinaryOperator) (left right : Tree)
deriving DecidableEq, Repr

namespace Tree

def operator? : Tree → Option Operator
  | name _ => none
  | negation _ => some .not
  | binary op _ _ => some op.val

-- The level of the operator on top; names bind tighter than any.
def level (t : Tree) : Nat := ((t.operator?.bind Operator.precedence).getD 0)

-- No operand binds looser than the operator above it.
def Tidy : Tree → Prop
  | name _ => True
  | negation operand => operand.level ≤ (negation operand).level ∧ operand.Tidy
  | binary op left right =>
      left.level ≤ op.level ∧ right.level ≤ op.level ∧ left.Tidy ∧ right.Tidy

end Tree

inductive Token where
  | name (text : String)
  | negation
  | binary (op : BinaryOperator)
  | opening
  | closing
deriving DecidableEq, Repr

-- An operator that still waits for the operand on its right.
inductive Pending where
  | negation
  | binary (left : Tree) (op : BinaryOperator)
deriving DecidableEq, Repr

namespace Pending

def level : Pending → Nat
  | negation => (Operator.not.precedence).getD 0
  | binary _ op => op.level

def apply (operand : Tree) : Pending → Tree
  | negation => .negation operand
  | binary left op => .binary op left operand

end Pending

-- Where a reader is. The pending operators stand with the last one first, those
-- outside the innermost open parenthesis apart.
structure State where
  outer : List (List Pending)
  pending : List Pending
  operand : Option Tree
deriving DecidableEq, Repr

namespace State

def start : State := ⟨[], [], none⟩

-- Applies all pending operators to the operand on their right.
def finish (operand : Tree) (pending : List Pending) : Tree :=
  pending.foldl Pending.apply operand

-- An operator takes what binds at least as tight on its left, so that operators
-- of one level are grouped to the left.
def step (state : State) : Token → Option State
  | .name text =>
      match state.operand with
      | none => some { state with operand := some (.name text) }
      | some _ => none
  | .negation =>
      match state.operand with
      | none => some { state with pending := .negation :: state.pending }
      | some _ => none
  | .opening =>
      match state.operand with
      | none => some ⟨state.pending :: state.outer, [], none⟩
      | some _ => none
  | .binary op =>
      match state.operand with
      | none => none
      | some operand =>
          let binds (waiting : Pending) : Bool := waiting.level ≤ op.level
          let left := finish operand (state.pending.takeWhile binds)
          some ⟨state.outer, .binary left op :: state.pending.dropWhile binds, none⟩
  | .closing =>
      match state.operand, state.outer with
      | some operand, pending :: outer => some ⟨outer, pending, some (finish operand state.pending)⟩
      | _, _ => none

def run (state : State) (tokens : List Token) : Option State := tokens.foldlM step state

end State

-- Groups an expression by the levels of its operators and by its parentheses.
def group? (tokens : List Token) : Option Tree :=
  match State.start.run tokens with
  | some ⟨[], pending, some operand⟩ => some (State.finish operand pending)
  | _ => none

-- A character that is a word of its own wherever it stands.
def isMark (c : Char) : Bool := c == '(' || c == ')' || c == '~'

def endWord (begun : List Char) (rest : List String) : List String :=
  if begun.isEmpty then rest else String.ofList begun.reverse :: rest

-- The words of a text of whose first word some characters are read already,
-- given with the last one first. Blanks and marks end a word.
def words (begun : List Char) : List Char → List String
  | [] => endWord begun []
  | c :: rest =>
      if c == ' ' then endWord begun (words [] rest)
      else if isMark c then endWord begun (String.ofList [c] :: words [] rest)
      else words (c :: begun) rest

-- A letter or an underscore, and then letters, digits and underscores.
def isIdentifier (text : String) : Bool :=
  match text.toList with
  | [] => false
  | first :: rest =>
      (first.isAlpha || first == '_') && rest.all fun c => c.isAlphanum || c == '_'

-- An identifier that is no keyword of the dialect.
def isName (dialect : Dialect) (text : String) : Bool :=
  isIdentifier text &&
    !dialect.keywords.contains (Scope.normalize dialect.ignoreCase text)

def negationWord : Dialect → String
  | .vhdl => "NOT"
  | .simModel => "~"

-- What stands around a name where a signal is read.
def readMarks : Dialect → List Char × List Char
  | .vhdl => ([], [])
  | .simModel => ("self.".toList, "._oldVal".toList)

-- What stands between two given parts of a word.
def between? (before after word : List Char) : Option (List Char) :=
  let inner := (word.drop before.length).take (word.length - before.length - after.length)
  if before ++ (inner ++ after) = word then some inner else none

-- The name of the signal that a word reads.
def nameOf? (dialect : Dialect) (word : String) : Option String :=
  let (before, after) := readMarks dialect
  ((between? before after word.toList).map String.ofList).filter isIdentifier

def token? (dialect : Dialect) (word : String) : Option Token :=
  if word = "(" then some .opening
  else if word = ")" then some .closing
  else if word = negationWord dialect then some .negation
  else match (BinaryOperator.words dialect).lookup word with
    | some op => some (.binary op)
    | none => (nameOf? dialect word).map .name

-- Reads an expression by the table of precedences.
def read? (dialect : Dialect) (text : String) : Option Tree :=
  ((words [] text.toList).mapM (token? dialect)).bind group?

end Precedence

end Rtl
