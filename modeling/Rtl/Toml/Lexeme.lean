namespace Rtl.Toml

-- The outcome of looking for one of several forms: it is there, it is not and
-- another may be tried, or it begins there and is broken.
inductive Attempt (α : Type) where
  | found (value : α) (rest : List Char)
  | absent
  | broken
deriving Repr

namespace Attempt

def ofOption {α : Type} : Option (α × List Char) → Attempt α
  | some (value, rest) => found value rest
  | none => broken

-- The second form where the first is absent.
def orElse {α : Type} (first : Attempt α) (second : Attempt α) : Attempt α :=
  match first with
  | absent => second
  | other => other

end Attempt

-- What may stand in comments and in literal strings apart from their ends.
def isPlain (c : Char) : Bool := c == '\t' || (0x20 ≤ c.toNat && c.toNat != 0x7F)

def isSpace (c : Char) : Bool := c == ' ' || c == '\t'

def isBare (c : Char) : Bool := c.isAlphanum || c == '_' || c == '-'

def isHexDigit (c : Char) : Bool :=
  c.isDigit || ('a' ≤ c && c ≤ 'f') || ('A' ≤ c && c ≤ 'F')

def digitValue (c : Char) : Nat :=
  if c.isDigit then c.toNat - '0'.toNat
  else if 'a' ≤ c then c.toNat - 'a'.toNat + 10
  else c.toNat - 'A'.toNat + 10

def numberOf (base : Nat) (digits : List Char) : Nat :=
  digits.foldl (fun acc c => base * acc + digitValue c) 0

def skipSpaces (cs : List Char) : List Char := cs.dropWhile isSpace

def newline? : List Char → Option (List Char)
  | '\n' :: rest => some rest
  | '\r' :: '\n' :: rest => some rest
  | _ => none

-- The text after the rest of a line that says nothing more.
def lineEnd? (cs : List Char) : Option (List Char) :=
  let trailing := match skipSpaces cs with
    | '#' :: rest => rest.dropWhile isPlain
    | other => other
  match trailing with
  | [] => some []
  | rest => newline? rest

mutual

-- Skips blanks, line endings and comments, as between the items of an array.
def skipBlank : List Char → List Char
  | ' ' :: rest => skipBlank rest
  | '\t' :: rest => skipBlank rest
  | '\n' :: rest => skipBlank rest
  | '\r' :: '\n' :: rest => skipBlank rest
  | '#' :: rest => skipComment rest
  | rest => rest

def skipComment : List Char → List Char
  | '\n' :: rest => skipBlank rest
  | '\r' :: '\n' :: rest => skipBlank rest
  | c :: rest => if isPlain c then skipComment rest else c :: rest
  | [] => []

end

def codePoint? (count : Nat) (cs : List Char) : Option (Char × List Char) :=
  let digits := cs.take count
  let code := numberOf 16 digits
  if digits.length == count && digits.all isHexDigit && code.isValidChar then
    some (Char.ofNat code, cs.drop count)
  else none

def escaped? : List Char → Option (Char × List Char)
  | 'b' :: rest => some ('\x08', rest)
  | 'f' :: rest => some ('\x0c', rest)
  | 'n' :: rest => some ('\n', rest)
  | 'r' :: rest => some ('\r', rest)
  | 't' :: rest => some ('\t', rest)
  | '"' :: rest => some ('"', rest)
  | '\\' :: rest => some ('\\', rest)
  | 'u' :: rest => codePoint? 4 rest
  | 'U' :: rest => codePoint? 8 rest
  | _ => none

-- The text up to the closing quote, read in at most `steps` steps.
def basicBody : Nat → List Char → Option (List Char × List Char)
  | 0, _ => none
  | _ + 1, [] => none
  | steps + 1, c :: rest =>
      if c == '"' then some ([], rest)
      else if c == '\\' then do
        let (c, rest) ← escaped? rest
        let (text, rest) ← basicBody steps rest
        return (c :: text, rest)
      else if isPlain c then do
        let (text, rest) ← basicBody steps rest
        return (c :: text, rest)
      else none

-- The text up to the closing quote; nothing is escaped in it.
def literalBody (cs : List Char) : Option (List Char × List Char) :=
  let text := cs.takeWhile fun c => isPlain c && c != '\''
  match cs.drop text.length with
  | '\'' :: rest => some (text, rest)
  | _ => none

-- A backslash before the end of a line, which joins it to the next text.
def joined? (cs : List Char) : Option (List Char) :=
  (newline? (skipSpaces cs)).map skipLines
where
  skipLines : List Char → List Char
    | ' ' :: rest => skipLines rest
    | '\t' :: rest => skipLines rest
    | '\n' :: rest => skipLines rest
    | '\r' :: '\n' :: rest => skipLines rest
    | rest => rest

-- The text of several lines up to three closing quotes. One or two quotes may
-- stand anywhere, also right before the closing ones. `escapes` says whether a
-- backslash means something.
def longBody (quote : Char) (escapes : Bool) : Nat → List Char → Option (List Char × List Char)
  | 0, _ => none
  | _ + 1, [] => none
  | steps + 1, c :: rest =>
      if c == quote then
        let run := 1 + (rest.takeWhile (· == quote)).length
        if run < 3 then do
          let (text, rest) ← longBody quote escapes steps (rest.drop (run - 1))
          return (List.replicate run quote ++ text, rest)
        else
          let inside := min (run - 3) 2
          some (List.replicate inside quote, rest.drop (inside + 2))
      else if escapes && c == '\\' then
        match joined? rest with
        | some rest => longBody quote escapes steps rest
        | none => do
            let (c, rest) ← escaped? rest
            let (text, rest) ← longBody quote escapes steps rest
            return (c :: text, rest)
      else
        match newline? (c :: rest) with
        | some rest => do
            let (text, rest) ← longBody quote escapes steps rest
            return ('\n' :: text, rest)
        | none =>
            if isPlain c then do
              let (text, rest) ← longBody quote escapes steps rest
              return (c :: text, rest)
            else none

-- A line ending right after the opening quotes is not part of the text.
def longString (quote : Char) (escapes : Bool) (cs : List Char) : Option (List Char × List Char) :=
  let start := (newline? cs).getD cs
  longBody quote escapes (start.length + 1) start

def string? : List Char → Option (List Char × List Char)
  | '"' :: '"' :: '"' :: rest => longString '"' true rest
  | '"' :: rest => basicBody (rest.length + 1) rest
  | '\'' :: '\'' :: '\'' :: rest => longString '\'' false rest
  | '\'' :: rest => literalBody rest
  | _ => none

def simpleKey? : List Char → Option (String × List Char)
  | '"' :: rest => (basicBody (rest.length + 1) rest).map fun (text, rest) =>
      (String.ofList text, rest)
  | '\'' :: rest => (literalBody rest).map fun (text, rest) => (String.ofList text, rest)
  | cs =>
      let text := cs.takeWhile isBare
      if text.isEmpty then none else some (String.ofList text, cs.drop text.length)

-- A key of parts with dots between them, read in at most `steps` steps.
def keyParts? : Nat → List Char → Option (List String × List Char)
  | 0, _ => none
  | steps + 1, cs => do
      let (part, rest) ← simpleKey? (skipSpaces cs)
      match skipSpaces rest with
      | '.' :: rest =>
          let (parts, rest) ← keyParts? steps rest
          return (part :: parts, rest)
      | rest => return ([part], rest)

-- How deep values may nest, and how many parts a key may have.
def depthLimit : Nat := 80

-- A key, split before its last part.
def key? (cs : List Char) : Option (List String × String × List Char) := do
  let (parts, rest) ← keyParts? (depthLimit - 1) cs
  let last ← parts.getLast?
  return (parts.dropLast, last, rest)

end Rtl.Toml
