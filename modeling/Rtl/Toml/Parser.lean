import Rtl.Toml.Number

namespace Rtl.Toml

-- The text after a word that it begins with.
def word? (word : String) (cs : List Char) : Option (List Char) :=
  if word.toList.isPrefixOf cs then some (cs.drop word.length) else none

mutual

-- A value inside `depth` others, read in at most `steps` steps.
def value? : Nat → Nat → List Char → Option (Entry × List Char)
  | 0, _, _ => none
  | steps + 1, depth, cs =>
      match cs with
      | [] => none
      | c :: rest =>
          if c == '"' || c == '\'' then
            (string? cs).map fun (text, rest) => (.text (String.ofList text), rest)
          else if c == '[' then do
            guard (depth + 1 < depthLimit)
            let (items, rest) ← items? steps (depth + 1) (skipBlank rest)
            return (.array items, rest)
          else if c == '{' then do
            guard (depth + 1 < depthLimit)
            match skipSpaces rest with
            | '}' :: rest => return (.table .inline [], rest)
            | rest =>
                let (pairs, rest) ← pairs? steps (depth + 1) rest
                return (.table .inline (← inlineFields pairs), rest)
          else if c == 't' then (word? "true" cs).map fun rest => (.boolean, rest)
          else if c == 'f' then (word? "false" cs).map fun rest => (.boolean, rest)
          else numeric? cs

-- The items of an array up to its closing bracket. A comma may follow the last.
def items? : Nat → Nat → List Char → Option (List Entry × List Char)
  | 0, _, _ => none
  | steps + 1, depth, cs =>
      match cs with
      | ']' :: rest => some ([], rest)
      | _ => do
          let (item, rest) ← value? steps depth cs
          match skipBlank rest with
          | ',' :: rest =>
              let (items, rest) ← items? steps depth (skipBlank rest)
              return (item :: items, rest)
          | ']' :: rest => return ([item], rest)
          | _ => none

-- The fields of an inline table up to its closing brace. No comma follows the
-- last.
def pairs? : Nat → Nat → List Char → Option (List (List String × String × Entry) × List Char)
  | 0, _, _ => none
  | steps + 1, depth, cs => do
      let (dotted, key, rest) ← key? cs
      let '=' :: rest := rest | none
      let (entry, rest) ← value? steps depth (skipSpaces rest)
      match skipSpaces rest with
      | ',' :: rest =>
          let (pairs, rest) ← pairs? steps depth rest
          return ((dotted, key, entry) :: pairs, rest)
      | '}' :: rest => return ([(dotted, key, entry)], rest)
      | _ => none

end

def fieldLine? (cs : List Char) : Option (Line × List Char) := do
  let (dotted, key, rest) ← key? cs
  let '=' :: rest := rest | none
  let (entry, rest) ← value? (2 * rest.length + 2) 0 (skipSpaces rest)
  return (.field dotted key entry, ← lineEnd? rest)

-- A line with the header of a table or of an item of an array, after its first
-- bracket.
def headerLine? (cs : List Char) : Option (Line × List Char) :=
  match cs with
  | '[' :: rest => do
      let (above, key, rest) ← key? rest
      let ']' :: ']' :: rest := rest | none
      return (.item above key, ← lineEnd? rest)
  | _ => do
      let (above, key, rest) ← key? cs
      let ']' :: rest := rest | none
      return (.table above key, ← lineEnd? rest)

-- One line; `none` inside is a line that says nothing.
def line? (cs : List Char) : Option (Option Line × List Char) :=
  match cs with
  | '#' :: _ => (lineEnd? cs).map (none, ·)
  | '\n' :: rest => some (none, rest)
  | '\r' :: rest => (newline? ('\r' :: rest)).map (none, ·)
  | '[' :: rest => (headerLine? rest).map fun (line, rest) => (some line, rest)
  | _ => (fieldLine? cs).map fun (line, rest) => (some line, rest)

-- All lines, at most `count`.
def lines? : Nat → List Char → Option (List Line)
  | 0, _ => none
  | count + 1, cs =>
      match skipSpaces cs with
      | [] => some []
      | cs => do
          let (line, rest) ← line? cs
          let lines ← lines? count rest
          return line.toList ++ lines

-- The fields of a document. A byte order mark at its start says nothing.
def parse? (text : String) : Option Fields := do
  let cs := match text.toList with
    | '\uFEFF' :: rest => rest
    | cs => cs
  let lines ← lines? (cs.length + 1) cs
  let document ← lines.foldlM Document.add Document.empty
  return document.fields

end Rtl.Toml
