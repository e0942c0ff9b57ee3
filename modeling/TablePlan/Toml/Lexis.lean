import TablePlan.Toml.Basic
/-! The words of TOML text: blanks and comments, keys, strings, numbers and dates. -/
namespace TablePlan.Toml

def isSpace (c : Char) : Bool := c = ' ' || c = '\t'

def skipSpace : List Char → List Char := List.dropWhile isSpace

def isPlain (c : Char) : Bool := c = '\t' || (0x20 ≤ c.toNat && c.toNat ≠ 0x7f)

def lineEnd (s : List Char) : Option (List Char) :=
  let s := match skipSpace s with
    | '#' :: rest => rest.dropWhile isPlain
    | s => s
  match s with
  | [] => some []
  | '\n' :: rest => some rest
  | '\r' :: '\n' :: rest => some rest
  | _ => none

def skipLines (comment : Bool) : List Char → Option (List Char)
  | [] => some []
  | '\n' :: rest => skipLines false rest
  | '\r' :: '\n' :: rest => skipLines false rest
  | c :: rest =>
    if comment then if isPlain c then skipLines true rest else none
    else if isSpace c then skipLines false rest
    else if c = '#' then skipLines true rest
    else some (c :: rest)

def hexValue (c : Char) : Option Nat :=
  if c.isDigit then some (c.toNat - '0'.toNat)
  else if 'a' ≤ c ∧ c ≤ 'f' then some (c.toNat - 'a'.toNat + 10)
  else if 'A' ≤ c ∧ c ≤ 'F' then some (c.toNat - 'A'.toNat + 10)
  else none

def unescaped (c : Char) : Option Char :=
  if c = '"' ∨ c = '\\' then some c
  else if c = 'b' then some '\x08'
  else if c = 'e' then some '\x1b'
  else if c = 'f' then some '\x0c'
  else if c = 'n' then some '\n'
  else if c = 'r' then some '\r'
  else if c = 't' then some '\t'
  else none

def scalarValue (n : Nat) : Option Char :=
  if n < 0xd800 ∨ (0xdfff < n ∧ n < 0x110000) then some (Char.ofNat n) else none

inductive Spot where
  | plain
  | slash
  | hex (due value : Nat)
  | gap (lineEnded : Bool)
  deriving DecidableEq, Repr

-- Three quotes close a string of several lines, and up to two more may stand before them.
def closing (quote : Char) (s : List Char) : Option (List Char × List Char) :=
  let count := (s.takeWhile (· = quote)).length
  if count < 3 then none
  else
    let inner := min (count - 3) 2
    some (List.replicate inner quote, s.drop (inner + 3))

def basicFrom (lines : Bool) : Spot → List Char → Option (List Char × List Char)
  | _, [] => none
  | spot, c :: rest =>
    let push (d : Char) := do
      let (chars, rest) ← basicFrom lines .plain rest
      some (d :: chars, rest)
    let plain := fun (_ : Unit) =>
      if c = '"' then
        if lines then match closing '"' (c :: rest) with
          | some found => some found
          | none => push c
        else some ([], rest)
      else if c = '\\' then basicFrom lines .slash rest
      else if isPlain c then push c
      else if lines && (c = '\n' || (c = '\r' && rest.head? = some '\n')) then push c
      else none
    match spot with
    | .plain => plain ()
    | .slash =>
      if c = 'x' then basicFrom lines (.hex 2 0) rest
      else if c = 'u' then basicFrom lines (.hex 4 0) rest
      else if c = 'U' then basicFrom lines (.hex 8 0) rest
      else match unescaped c with
        | some d => push d
        | none =>
          if lines && isSpace c then basicFrom lines (.gap false) rest
          else if lines && (c = '\n' || (c = '\r' && rest.head? = some '\n')) then
            basicFrom lines (.gap (c = '\n')) rest
          else none
    | .hex due value => do
      let value := 16 * value + (← hexValue c)
      if 1 < due then basicFrom lines (.hex (due - 1) value) rest
      else push (← scalarValue value)
    | .gap lineEnded =>
      if isSpace c then basicFrom lines (.gap lineEnded) rest
      else if c = '\n' then basicFrom lines (.gap true) rest
      else if c = '\r' && rest.head? = some '\n' then basicFrom lines (.gap lineEnded) rest
      else if lineEnded then plain ()
      else none

def literalFrom (lines : Bool) : List Char → Option (List Char × List Char)
  | [] => none
  | c :: rest =>
    let push := do
      let (chars, rest) ← literalFrom lines rest
      some (c :: chars, rest)
    if c = '\'' then
      if lines then match closing '\'' (c :: rest) with
        | some found => some found
        | none => push
      else some ([], rest)
    else if isPlain c then push
    else if lines && (c = '\n' || (c = '\r' && rest.head? = some '\n')) then push
    else none

def asString : Option (List Char × List Char) → Option (String × List Char)
  | some (chars, rest) => some (String.ofList chars, rest)
  | none => none

def afterOpening : List Char → List Char
  | '\n' :: rest => rest
  | '\r' :: '\n' :: rest => rest
  | s => s

def stringValue : List Char → Option (String × List Char)
  | '"' :: '"' :: '"' :: rest => asString (basicFrom true .plain (afterOpening rest))
  | '\'' :: '\'' :: '\'' :: rest => asString (literalFrom true (afterOpening rest))
  | '"' :: rest => asString (basicFrom false .plain rest)
  | '\'' :: rest => asString (literalFrom false rest)
  | _ => none

def isBare (c : Char) : Bool := c.isAlphanum || c = '_' || c = '-'

def simpleKey : List Char → Option (String × List Char)
  | '"' :: rest => asString (basicFrom false .plain rest)
  | '\'' :: rest => asString (literalFrom false rest)
  | s =>
    if (s.takeWhile isBare).isEmpty then none
    else some (String.ofList (s.takeWhile isBare), s.dropWhile isBare)

def keysFrom : Nat → List Char → Option (List String × List Char)
  | 0, _ => none
  | bound + 1, s => do
    let (key, s) ← simpleKey (skipSpace s)
    match skipSpace s with
    | '.' :: s => do
      let (keys, s) ← keysFrom bound s
      some (key :: keys, s)
    | s => some ([key], s)

def nestingRoom : Nat := 80

def keys (s : List Char) : Option (List String × List Char) := do
  let (found, s) ← keysFrom (s.length + 1) s
  if nestingRoom < found.length then none else some (found, s)

def digits (isDigit : Char → Bool) : List Char → Option (List Char)
  | [] => none
  | [c] => if isDigit c then some [c] else none
  | c :: '_' :: rest => if isDigit c then (digits isDigit rest).map (c :: ·) else none
  | c :: rest => if isDigit c then (digits isDigit rest).map (c :: ·) else none

def natOf (base : Nat) (digits : List Char) : Nat :=
  digits.foldl (fun n c => base * n + (hexValue c).getD 0) 0

def radixDigits (base : Nat) (s : List Char) : Option Nat := do
  let found ← digits (fun c => (hexValue c).any (· < base)) s
  some (natOf base found)

def signed : List Char → Bool × List Char
  | '-' :: rest => (true, rest)
  | '+' :: rest => (false, rest)
  | s => (false, s)

def wholeDigits (s : List Char) : Option (List Char) := do
  let found ← digits Char.isDigit s
  match found with
  | '0' :: _ :: _ => none
  | _ => some found

def integerOf? : List Char → Option Int
  | '0' :: 'x' :: rest => (radixDigits 16 rest).map Int.ofNat
  | '0' :: 'o' :: rest => (radixDigits 8 rest).map Int.ofNat
  | '0' :: 'b' :: rest => (radixDigits 2 rest).map Int.ofNat
  | s => do
    let (negative, s) := signed s
    let n := natOf 10 (← wholeDigits s)
    some (if negative then -(n : Int) else n)

def inRange (n : Int) : Bool :=
  if n < 0 then n.natAbs ≤ Decimal.twoTo 127 else n.natAbs < Decimal.twoTo 128

def fractionOf? (s : List Char) : Option (List Char) := digits Char.isDigit s

def exponentOf? (s : List Char) : Option Int := do
  let (negative, s) := signed s
  let n := natOf 10 (← digits Char.isDigit s)
  some (if negative then -(n : Int) else n)

def isExponentMark (c : Char) : Bool := c = 'e' || c = 'E'

def isFloat (s : List Char) : Bool :=
  let s := (signed s).2
  if s = "inf".toList ∨ s = "nan".toList then true
  else
    let mantissa := s.takeWhile fun c => !isExponentMark c
    let exponent := s.dropWhile fun c => !isExponentMark c
    let whole := mantissa.takeWhile (· ≠ '.')
    let fraction := mantissa.dropWhile (· ≠ '.')
    let parts : Option (List Char × List Char × Int) := do
      let whole ← wholeDigits whole
      let fraction ← match fraction with
        | [] => some []
        | _ :: rest => fractionOf? rest
      let exponent ← match exponent with
        | [] => some 0
        | _ :: rest => exponentOf? rest
      some (whole, fraction, exponent)
    match parts with
    | none => false
    | some (whole, fractionDigits, power) =>
      if fraction.isEmpty && exponent.isEmpty then false
      else
        (Decimal.Binary64.ofDecimal false (natOf 10 (whole ++ fractionDigits))
          (power - fractionDigits.length)).isSome

def twoDigits : List Char → Option (Nat × List Char)
  | a :: b :: rest => if a.isDigit && b.isDigit then some (natOf 10 [a, b], rest) else none
  | _ => none

def fourDigits (s : List Char) : Option (Nat × List Char) := do
  let (high, s) ← twoDigits s
  let (low, s) ← twoDigits s
  some (100 * high + low, s)

def mark (c : Char) : List Char → Option (List Char)
  | d :: rest => if c = d then some rest else none
  | [] => none

def isLeap (year : Nat) : Bool := year % 4 = 0 && (year % 100 ≠ 0 || year % 400 = 0)

def daysIn (year month : Nat) : Nat :=
  if month = 2 then if isLeap year then 29 else 28
  else if month = 4 ∨ month = 6 ∨ month = 9 ∨ month = 11 then 30
  else 31

def date (s : List Char) : Option (List Char) := do
  let (year, s) ← fourDigits s
  let (month, s) ← twoDigits (← mark '-' s)
  let (day, s) ← twoDigits (← mark '-' s)
  if 1 ≤ month ∧ month ≤ 12 ∧ 1 ≤ day ∧ day ≤ daysIn year month then some s else none

def seconds (s : List Char) : Option (List Char) := do
  let (second, s) ← twoDigits s
  if 60 < second then none
  match s with
  | '.' :: rest =>
    if (rest.takeWhile Char.isDigit).isEmpty then none else some (rest.dropWhile Char.isDigit)
  | s => some s

def time (s : List Char) : Option (List Char) := do
  let (hour, s) ← twoDigits s
  let (minute, s) ← twoDigits (← mark ':' s)
  if 23 < hour ∨ 59 < minute then none
  match s with
  | ':' :: rest => seconds rest
  | s => some s

def offset : List Char → Option (List Char)
  | c :: rest =>
    if c = 'Z' ∨ c = 'z' then some rest
    else if c = '+' ∨ c = '-' then do
      let (hour, rest) ← twoDigits rest
      let (minute, rest) ← twoDigits (← mark ':' rest)
      if hour ≤ 23 ∧ minute ≤ 59 then some rest else none
    else none
  | [] => none

def isMoment (s : List Char) : Bool :=
  match date s with
  | some [] => true
  | some (c :: rest) =>
    if c = 'T' ∨ c = 't' ∨ c = ' ' then
      match time rest with
      | some [] => true
      | some rest => offset rest = some []
      | none => false
    else false
  | none => time s = some []

def isWord (c : Char) : Bool := c.isAlphanum || c = '_' || c = '-' || c = '+' || c = '.' || c = ':'

-- A date takes in the time that follows it after a space.
def word (s : List Char) : List Char × List Char :=
  let first := s.takeWhile isWord
  let rest := s.dropWhile isWord
  match rest with
  | ' ' :: c :: more =>
    if date first = some [] ∧ c.isDigit then
      (first ++ ' ' :: (c :: more).takeWhile isWord, (c :: more).dropWhile isWord)
    else (first, rest)
  | _ => (first, rest)

def wordValue (s : List Char) : Option Toml :=
  if s = "true".toList then some (.boolean true)
  else if s = "false".toList then some (.boolean false)
  else match integerOf? s with
    | some n => if inRange n then some (.integer n) else none
    | none =>
      if isFloat s then some (.float (String.ofList s))
      else if isMoment s then some (.moment (String.ofList s))
      else none

end TablePlan.Toml
