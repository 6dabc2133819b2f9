import Rtl.Toml.Document
import Rtl.Toml.Lexeme

namespace Rtl.Toml

def twoDigits? : List Char → Option (Nat × List Char)
  | a :: b :: rest => if a.isDigit && b.isDigit then some (numberOf 10 [a, b], rest) else none
  | _ => none

def isLeapYear (year : Nat) : Bool := year % 4 == 0 && (year % 100 != 0 || year % 400 == 0)

def daysIn (year month : Nat) : Nat :=
  if month == 2 then if isLeapYear year then 29 else 28
  else if month == 4 || month == 6 || month == 9 || month == 11 then 30
  else 31

-- A date, once its year and a dash are read.
def monthAndDay? (year : Nat) (cs : List Char) : Option (Unit × List Char) := do
  let (month, rest) ← twoDigits? cs
  guard (1 ≤ month && month ≤ 12)
  let '-' :: rest := rest | none
  let (day, rest) ← twoDigits? rest
  guard (1 ≤ day && day ≤ daysIn year month)
  return ((), rest)

def date : List Char → Attempt Unit
  | a :: b :: c :: d :: '-' :: rest =>
      if [a, b, c, d].all Char.isDigit then
        .ofOption (monthAndDay? (numberOf 10 [a, b, c, d]) rest)
      else .absent
  | _ => .absent

def skipFraction : List Char → List Char
  | '.' :: c :: rest => if c.isDigit then rest.dropWhile Char.isDigit else '.' :: c :: rest
  | rest => rest

-- A time, once its hour and a colon are read. There are leap seconds.
def minuteAndSecond? (cs : List Char) : Option (Unit × List Char) := do
  let (minute, rest) ← twoDigits? cs
  guard (minute ≤ 59)
  let ':' :: rest := rest | none
  let (second, rest) ← twoDigits? rest
  guard (second ≤ 60)
  return ((), skipFraction rest)

def time (cs : List Char) : Attempt Unit :=
  match twoDigits? cs with
  | some (hour, ':' :: rest) => if hour ≤ 23 then .ofOption (minuteAndSecond? rest) else .absent
  | _ => .absent

def offsetBody? (cs : List Char) : Option (Unit × List Char) := do
  let (hour, rest) ← twoDigits? cs
  guard (hour ≤ 23)
  let ':' :: rest := rest | none
  let (minute, rest) ← twoDigits? rest
  guard (minute ≤ 59)
  return ((), rest)

def offset : List Char → Attempt Unit
  | 'Z' :: rest => .found () rest
  | 'z' :: rest => .found () rest
  | '+' :: rest => .ofOption (offsetBody? rest)
  | '-' :: rest => .ofOption (offsetBody? rest)
  | _ => .absent

-- A time after a date, with the offset that it may have; without one the date
-- stands alone.
def timeAfterDate (cs : List Char) : Attempt Unit :=
  match cs with
  | [] => .found () []
  | c :: rest =>
      if c == 'T' || c == 't' || c == ' ' then
        match time rest with
        | .absent => .found () cs
        | .broken => .broken
        | .found () after =>
            match offset after with
            | .absent => .found () after
            | other => other
      else .found () cs

-- A date, a time, or both.
def moment (cs : List Char) : Attempt Entry :=
  let found := match date cs with
    | .found () rest => timeAfterDate rest
    | .broken => .broken
    | .absent => time cs
  match found with
  | .found () rest => .found .moment rest
  | .broken => .broken
  | .absent => .absent

-- Further digits with single underscores before some of them. The underscores
-- are left out.
def moreDigits? (isDigit : Char → Bool) : List Char → Option (List Char × List Char)
  | [] => some ([], [])
  | ['_'] => none
  | '_' :: c :: rest =>
      if isDigit c then (moreDigits? isDigit rest).map fun (digits, rest) => (c :: digits, rest)
      else none
  | c :: rest =>
      if isDigit c then (moreDigits? isDigit rest).map fun (digits, rest) => (c :: digits, rest)
      else some ([], c :: rest)

def digits? (isDigit : Char → Bool) : List Char → Option (List Char × List Char)
  | [] => none
  | c :: rest =>
      if isDigit c then (moreDigits? isDigit rest).map fun (digits, rest) => (c :: digits, rest)
      else none

-- A sign, if there is one: whether it is a minus, and the rest.
def sign : List Char → Bool × List Char
  | '+' :: rest => (false, rest)
  | '-' :: rest => (true, rest)
  | rest => (false, rest)

-- The digits of a decimal number. Nothing follows a zero at the front.
def decimal : List Char → Attempt (List Char)
  | [] => .absent
  | c :: rest =>
      if c == '0' then .found [c] rest
      else if c.isDigit then .ofOption (digits? Char.isDigit (c :: rest))
      else .absent

-- The exponent of a number, zero if there is none.
def exponent? : List Char → Option (Int × List Char)
  | [] => some (0, [])
  | c :: rest =>
      if c == 'e' || c == 'E' then do
        let (negative, rest) := sign rest
        let (digits, rest) ← digits? Char.isDigit rest
        let magnitude : Int := numberOf 10 digits
        return (if negative then -magnitude else magnitude, rest)
      else some (0, c :: rest)

-- Whether a decimal number is too large for a double: it is at least halfway
-- from the largest one to the next power of two.
def overflows (digits : List Char) (exponent : Int) : Bool :=
  let mantissa := numberOf 10 digits
  let length : Int := ((Nat.toDigits 10 mantissa).length : Int)
  let limit := 1 <<< 1024 - 1 <<< 970
  if mantissa == 0 then false
  else if length + exponent > 400 then true
  else if length + exponent < 300 then false
  else if exponent ≥ 0 then limit ≤ mantissa * Nat.pow 10 exponent.toNat
  else limit * Nat.pow 10 (-exponent).toNat ≤ mantissa

-- What makes a number a float: a fraction, an exponent, or both.
def floatTail? (negative : Bool) (whole cs : List Char) : Option (Entry × List Char) := do
  let (fraction, rest) ← match cs with
    | '.' :: rest => digits? Char.isDigit rest
    | rest => some ([], rest)
  let (exponent, rest) ← exponent? rest
  guard (negative || !overflows (whole ++ fraction) (exponent - fraction.length))
  return (.float, rest)

def isFloatMark (c : Char) : Bool := c == '.' || c == 'e' || c == 'E'

def special : List Char → Attempt Entry
  | 'i' :: 'n' :: 'f' :: rest => .found .float rest
  | 'n' :: 'a' :: 'n' :: rest => .found .float rest
  | _ => .absent

def float (cs : List Char) : Attempt Entry :=
  let (negative, unsigned) := sign cs
  match decimal unsigned with
  | .broken => .broken
  | .absent => special unsigned
  | .found whole rest =>
      match rest with
      | c :: _ => if isFloatMark c then .ofOption (floatTail? negative whole rest) else .absent
      | [] => .absent

-- Integers have 64 bits, one of them for the sign.
def integerLimit : Nat := 1 <<< 63

-- A number in another base, after its mark.
def based? (base : Nat) (isDigit : Char → Bool) (cs : List Char) : Option (Entry × List Char) := do
  let (digits, rest) ← digits? isDigit cs
  guard (numberOf base digits < integerLimit)
  return (.integer, rest)

def integer? (cs : List Char) : Option (Entry × List Char) :=
  match cs with
  | '0' :: 'x' :: rest => based? 16 isHexDigit rest
  | '0' :: 'o' :: rest => based? 8 (fun c => '0' ≤ c && c ≤ '7') rest
  | '0' :: 'b' :: rest => based? 2 (fun c => c == '0' || c == '1') rest
  | _ =>
      let (negative, unsigned) := sign cs
      match decimal unsigned with
      | .found digits rest =>
          let magnitude := numberOf 10 digits
          if magnitude < integerLimit || (negative && magnitude == integerLimit) then
            some (.integer, rest)
          else none
      | _ => none

def numeric? (cs : List Char) : Option (Entry × List Char) :=
  match (moment cs).orElse (float cs) with
  | .found entry rest => some (entry, rest)
  | .broken => none
  | .absent => integer? cs

end Rtl.Toml
