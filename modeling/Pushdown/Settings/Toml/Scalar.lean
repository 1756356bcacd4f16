import Pushdown.Text.Json

/-! # TOML tokens

Which bare tokens are numbers, dates or times, and which characters quoted keys and strings stand
for.
-/

namespace Pushdown
namespace Toml

/-- Control characters other than the tab may stand nowhere. -/
def isControl (c : Char) : Bool := (c.toNat < 32 && c != '\t') || c.toNat = 127

def isBlank (c : Char) : Bool := c = ' ' || c = '\t'

def isBareKeyChar (c : Char) : Bool := c.isAlphanum || c = '_' || c = '-'

/-- A token that is neither quoted nor bracketed ends before a blank, a line end, or one of a few
marks. -/
def isTokenChar (c : Char) : Bool :=
  !(isBlank c || c = '\n' || c = '\r' || "=,#[]\x7b\x7d".toList.contains c)

def unsigned : List Char → List Char
  | '+' :: cs => cs
  | '-' :: cs => cs
  | cs => cs

/-- A digit stands behind each underscore and another one before it. `afterDigit` counts for the
first character as what stands before it. -/
def separated (isDigit : Char → Bool) : Bool → List Char → Bool
  | _, [] => true
  | afterDigit, c :: cs =>
    if c = '_' then afterDigit && cs.head?.any isDigit && separated isDigit false cs
    else separated isDigit (isDigit c) cs

/-- Digits and underscores, with at least one digit. -/
def isDigits (cs : List Char) : Bool :=
  cs.all (fun c => c.isDigit || c = '_') && cs.any Char.isDigit

def isWhole (cs : List Char) : Bool :=
  isDigits cs && !(cs.head? == some '0' && 1 < cs.countP Char.isDigit)

def isHex (c : Char) : Bool := (Json.hexValue? c).isSome

/-- What may follow the mark of a base. It may be nothing. -/
def isBased (isDigit : Char → Bool) (cs : List Char) : Bool :=
  cs.all (fun c => isDigit c || c = '_') && separated isDigit false cs

def isExponentMark (c : Char) : Bool := c = 'e' || c = 'E'

/-- A whole part, a fraction and an exponent, of which the last two may be missing. -/
def isDecimal (cs : List Char) : Bool :=
  let mantissa := cs.takeWhile fun c => !isExponentMark c
  let exponent := cs.dropWhile fun c => !isExponentMark c
  let whole := mantissa.takeWhile (· != '.')
  let fraction := mantissa.dropWhile (· != '.')
  isWhole whole && (fraction.isEmpty || isDigits (fraction.drop 1)) &&
    (exponent.isEmpty || isDigits (unsigned (exponent.drop 1)))

/-- A number. Nobody asks for its value, so one with a base may lack digits, and in a whole one with
underscores only their neighbours are looked at. A sign is no such neighbour. -/
def isNumber (cs : List Char) : Bool :=
  match cs with
  | '0' :: 'x' :: ds => isBased isHex ds
  | '0' :: 'o' :: ds => isBased (fun c => '0' ≤ c && c ≤ '7') ds
  | '0' :: 'b' :: ds => isBased (fun c => c = '0' || c = '1') ds
  | _ =>
    let body := unsigned cs
    let tail := body.dropWhile Char.isDigit
    if tail.any fun c => c = '.' || isExponentMark c then
      isDecimal body && separated Char.isDigit false body
    else if tail.head? == some '_' then
      body.head? != some '0' && separated isHex false body
    else body == "inf".toList || body == "nan".toList || isWhole body

/-- A part of a date or time: exactly `width` digits, from `least` to `most`. -/
def isPart (width least most : Nat) (cs : List Char) : Bool :=
  cs.length = width && cs.all Char.isDigit &&
    least ≤ Json.digitsValue cs && Json.digitsValue cs ≤ most

def isLeapYear (y : Nat) : Bool := y % 4 = 0 && (y % 100 != 0 || y % 400 = 0)

def daysInMonth (year month : Nat) : Nat :=
  if month = 2 then if isLeapYear year then 29 else 28
  else if month = 4 ∨ month = 6 ∨ month = 9 ∨ month = 11 then 30
  else 31

def isDate (cs : List Char) : Bool :=
  let year := cs.take 4
  let month := (cs.drop 5).take 2
  let day := cs.drop 8
  cs[4]? == some '-' && cs[7]? == some '-' && isPart 4 0 9999 year && isPart 2 1 12 month &&
    isPart 2 1 (daysInMonth (Json.digitsValue year) (Json.digitsValue month)) day

/-- Hours and minutes, then seconds and a fraction of them if wanted. -/
def isTime (cs : List Char) : Bool :=
  let second := (cs.drop 6).take 2
  let fraction := cs.drop 8
  isPart 2 0 23 (cs.take 2) && cs[2]? == some ':' && isPart 2 0 59 ((cs.drop 3).take 2) &&
    (cs.length = 5 ||
      (cs[5]? == some ':' && isPart 2 0 60 second &&
        (fraction.isEmpty ||
          (fraction.head? == some '.' && 1 < fraction.length &&
            (fraction.drop 1).all Char.isDigit))))

def isOffsetMark (c : Char) : Bool := c = 'Z' || c = 'z' || c = '+' || c = '-'

def isOffset (cs : List Char) : Bool :=
  cs.isEmpty || cs == ['Z'] || cs == ['z'] ||
    ((cs.head? == some '+' || cs.head? == some '-') && cs.length = 6 && isTime (cs.drop 1))

def isDateTime (cs : List Char) : Bool :=
  let separator := cs[10]?
  let clock := cs.drop 11
  isDate (cs.take 10) &&
    (separator == some 'T' || separator == some 't' || separator == some ' ') &&
    isTime (clock.takeWhile fun c => !isOffsetMark c) &&
    isOffset (clock.dropWhile fun c => !isOffsetMark c)

def isScalar (cs : List Char) : Bool :=
  isNumber cs || isDate cs || isTime cs || isDateTime cs

def apostrophe : Char := Char.ofNat 39

def codedChar? (width : Nat) (cs : List Char) : Option (Char × List Char) :=
  let ds := cs.take width
  let n := ds.foldl (fun n d => 16 * n + (Json.hexValue? d).getD 0) 0
  if ds.length = width && ds.all isHex && n.isValidChar then some (Char.ofNat n, cs.drop width)
  else none

def escape? : List Char → Option (Char × List Char)
  | [] => none
  | c :: cs =>
    if c = 'x' then codedChar? 2 cs
    else if c = 'u' then codedChar? 4 cs
    else if c = 'U' then codedChar? 8 cs
    else if c = 'e' then some (Char.ofNat 27, cs)
    else if c = '/' then none
    else (Json.simpleEscape? c).map fun d => (d, cs)

/-- Reads up to the closing quote. `done` holds the characters read, the last first. -/
def readBasic? : Nat → List Char → List Char → Option (String × List Char)
  | 0, _, _ => none
  | _ + 1, _, [] => none
  | fuel + 1, done, c :: cs =>
    if c = '"' then some (String.ofList done.reverse, cs)
    else if c = '\\' then
      match escape? cs with
      | some (d, rest) => readBasic? fuel (d :: done) rest
      | none => none
    else if isControl c then none
    else readBasic? fuel (c :: done) cs

/-- Reads a string without escapes, up to its closing apostrophe. -/
def readLiteral? : List Char → List Char → Option (String × List Char)
  | _, [] => none
  | done, c :: cs =>
    if c = apostrophe then some (String.ofList done.reverse, cs)
    else if isControl c then none
    else readLiteral? (c :: done) cs

/-- Behind a backslash: blanks, a line end, and then all blanks and line ends. -/
def skipLineEnding? (cs : List Char) : Option (List Char) :=
  match cs.dropWhile isBlank with
  | '\n' :: rest => some (rest.dropWhile fun c => isBlank c || c = '\n' || c = '\r')
  | '\r' :: '\n' :: rest => some (rest.dropWhile fun c => isBlank c || c = '\n' || c = '\r')
  | _ => none

/-- Skips a string of several lines up to its three closing quotes, before which two more may stand.
Escapes are read where `escapes` says so. -/
def skipMultiline? (quote : Char) (escapes : Bool) : Nat → List Char → Option (List Char)
  | 0, _ => none
  | _ + 1, [] => none
  | fuel + 1, c :: cs =>
    if c = quote then
      let run := (c :: cs).takeWhile (· == quote)
      if 3 ≤ run.length then some ((c :: cs).drop (min run.length 5))
      else skipMultiline? quote escapes fuel cs
    else if escapes && c = '\\' then
      match skipLineEnding? cs with
      | some rest => skipMultiline? quote escapes fuel rest
      | none =>
        match escape? cs with
        | some (_, rest) => skipMultiline? quote escapes fuel rest
        | none => none
    else if c = '\r' then
      if cs.head? == some '\n' then skipMultiline? quote escapes fuel cs else none
    else if isControl c && c != '\n' then none
    else skipMultiline? quote escapes fuel cs

end Toml
end Pushdown
