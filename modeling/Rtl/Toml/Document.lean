namespace Rtl.Toml

-- How a table came about. Dotted keys extend only tables made by dotted keys,
-- a header opens only a table that so far was implied by longer headers, and
-- nothing is ever added to an inline table.
inductive TableOrigin where
  | header
  | implied
  | dotted
  | inline
deriving DecidableEq, Repr

-- A value. Settings only ever use text, so of the other scalars only the kind
-- is kept. `tables` is an array built by headers.
inductive Entry where
  | text (value : String)
  | integer
  | float
  | boolean
  | moment
  | array (items : List Entry)
  | table (origin : TableOrigin) (fields : List (String × Entry))
  | tables (items : List Entry)
deriving Repr

abbrev Fields := List (String × Entry)

-- Gives a key its value, in place if it has one.
def put (key : String) (entry : Entry) : Fields → Fields
  | [] => [(key, entry)]
  | (other, old) :: rest =>
      if other = key then (key, entry) :: rest else (other, old) :: put key entry rest

def changeLast (change : Entry → Option Entry) : List Entry → Option (List Entry)
  | [] => none
  | [item] => (change item).map fun item => [item]
  | item :: rest => (changeLast change rest).map (item :: ·)

def changeTable (change : TableOrigin → Fields → Option Fields) : Entry → Option Entry
  | .table origin fields => (change origin fields).map (.table origin)
  | _ => none

-- Changes the table at the end of a path, making tables of the given origin
-- where there are none. Along dotted keys every table must itself have come
-- about implicitly.
def descend (origin : TableOrigin) (change : TableOrigin → Fields → Option Fields) :
    List String → TableOrigin → Fields → Option Fields
  | [], here, fields => change here fields
  | key :: path, _, fields =>
      match fields.lookup key with
      | none => do
          let inner ← descend origin change path origin []
          return put key (.table origin inner) fields
      | some (.table found inner) =>
          if found == .inline || (origin == .dotted && found == .header) then none
          else do
            let inner ← descend origin change path found inner
            return put key (.table found inner) fields
      | some (.tables items) => do
          let items ← changeLast (changeTable (descend origin change path)) items
          return put key (.tables items) fields
      | some _ => none

-- Enters a value under the last key of a dotted key. A table reached by dotted
-- keys takes values only that way, and any other table only without.
def enter (dotted : List String) (key : String) (entry : Entry) : TableOrigin → Fields →
    Option Fields :=
  descend .dotted
    (fun origin fields =>
      if (origin == .dotted) == dotted.isEmpty || (fields.lookup key).isSome then none
      else some (put key entry fields))
    dotted

-- Opens the table of a header.
def openTable (key : String) (_ : TableOrigin) (fields : Fields) : Option Fields :=
  match fields.lookup key with
  | none => some (put key (.table .header []) fields)
  | some (.table .implied inner) => some (put key (.table .header inner) fields)
  | some _ => none

-- Adds a table to the array of a header.
def openItem (key : String) (_ : TableOrigin) (fields : Fields) : Option Fields :=
  match fields.lookup key with
  | none => some (put key (.tables [.table .header []]) fields)
  | some (.tables items) => some (put key (.tables (items ++ [.table .header []])) fields)
  | some _ => none

-- One line of a document that says something.
inductive Line where
  | field (dotted : List String) (key : String) (entry : Entry)
  | table (above : List String) (key : String)
  | item (above : List String) (key : String)

-- The table that lines are entered into, and all fields so far.
structure Document where
  current : List String
  fields : Fields

namespace Document

def empty : Document := ⟨[], []⟩

def add (document : Document) : Line → Option Document
  | .field dotted key entry => do
      let fields ← descend .implied (enter dotted key entry) document.current .header
        document.fields
      return { document with fields }
  | .table above key => do
      let fields ← descend .implied (openTable key) above .header document.fields
      return { current := above ++ [key], fields }
  | .item above key => do
      let fields ← descend .implied (openItem key) above .header document.fields
      return { current := above ++ [key], fields }

end Document

def inlineFields (pairs : List (List String × String × Entry)) : Option Fields :=
  pairs.foldlM (fun fields (dotted, key, entry) => enter dotted key entry .inline fields) []

end Rtl.Toml
