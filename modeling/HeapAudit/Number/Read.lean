import HeapAudit.Number.Binary64
import HeapAudit.Text.Basic
import HeapAudit.Text.Digit

namespace HeapAudit.Number
open Text

/-- A decimal integer has at most so many digits, leading zeros included. -/
def digitLimit : Nat := 4300

/-- An integer is written with no more digits than can be read. -/
def isWritable (n : Int) : Bool := n.natAbs < Nat.pow 10 digitLimit

/-- What is said of an integer that cannot be written. -/
def unwritableMessage : String :=
  "Exceeds the limit (" ++ toString digitLimit ++
    " digits) for integer string conversion; use sys.set_int_max_str_digits()" ++
    " to increase the limit"

inductive NumeralError where
  /-- The text is not an integer. -/
  | malformed (text : String)
  /-- The integer has this many digits. -/
  | tooLong (digits : Nat)
  deriving DecidableEq, Repr

/-- The value of a list of digits in a base. -/
def ofDigits (base : Nat) (ds : List Nat) : Nat := ds.foldl (fun n d => n * base + d) 0

def digitsOf (cs : Chars) : List Nat := cs.filterMap digit?

/-- A nonempty run of decimal digits. -/
def readDigits (cs : Chars) : Except NumeralError Nat :=
  if cs.length ≤ digitLimit then .ok (ofDigits 10 (digitsOf cs)) else .error (.tooLong cs.length)

/-- Digits and blanks of any script become the plain ones. -/
def plainChar (c : Char) : Char :=
  match digit? c with
  | some d => Char.ofNat (48 + d)
  | none => if isBlank c then ' ' else c

def plain (cs : Chars) : Chars := trim (cs.map plainChar)

def sign (cs : Chars) : Bool × Chars :=
  match cs with
  | '-' :: rest => (true, rest)
  | '+' :: rest => (false, rest)
  | _ => (false, cs)

/-- Digits of a base, in either case. -/
def digitIn? (base : Nat) (c : Char) : Option Nat :=
  let n := c.toNat
  let value? :=
    if 48 ≤ n ∧ n ≤ 57 then some (n - 48)
    else if 97 ≤ n ∧ n ≤ 122 then some (n - 87)
    else if 65 ≤ n ∧ n ≤ 90 then some (n - 55)
    else none
  value?.filter (· < base)

/-- A nonempty list of digits of a base, each of them readable. -/
def readBase? (base : Nat) (cs : Chars) : Option Nat :=
  if cs.isEmpty then none else (cs.mapM (digitIn? base)).map (ofDigits base)

def signedInt (negative : Bool) (n : Nat) : Int := if negative then -(n : Int) else n

/-- An integer as programs write it: decimal without leading zeros, or with the mark of base
sixteen, eight or two. -/
def readLiteral? (cs : Chars) : Option Int :=
  let (negative, body) := sign (plain cs)
  let size? :=
    match body with
    | '0' :: mark :: rest =>
      if mark = 'x' ∨ mark = 'X' then readBase? 16 rest
      else if mark = 'o' ∨ mark = 'O' then readBase? 8 rest
      else if mark = 'b' ∨ mark = 'B' then readBase? 2 rest
      else if body.length ≤ digitLimit ∧ body.all (· = '0') then some 0 else none
    | _ => if body.length ≤ digitLimit then readBase? 10 body else none
  size?.map (signedInt negative)

/-- Underscores are allowed between two digits. -/
def joinGroups? : Chars → Option Chars
  | [] => some []
  | ['_'] => none
  | '_' :: '_' :: _ => none
  | '_' :: c :: rest => (joinGroups? rest).map (c :: ·)
  | c :: rest => (joinGroups? rest).map (c :: ·)

/-- A decimal integer with an optional sign, blanks around it and underscores between its digits. -/
def readInt? (text : String) : Option Int :=
  let (negative, body) := sign (plain text.toList)
  if body.head? = some '_' then none
  else do
    let digits ← joinGroups? body
    if digitLimit < digits.length then none
    else (readBase? 10 digits).map (signedInt negative)

/-- `digits * 10 ^ k`, rounded. Exponents far out of range are decided by the size alone. -/
def ofDecimal (negative : Bool) (digits : List Nat) (k : Int) : Binary64 :=
  let n := ofDigits 10 digits
  let size : Int := (digits.dropWhile (· = 0)).length + k
  if n = 0 then .finite negative 0 Binary64.leastExponent
  else if 400 < size then .infinite negative
  else if size < -400 then .finite negative 0 Binary64.leastExponent
  else if 0 ≤ k then Binary64.ofRatio negative (n * Nat.pow 10 k.toNat) 1
  else Binary64.ofRatio negative n (Nat.pow 10 (-k).toNat)

def lowerAscii (cs : Chars) : Chars := cs.map Char.toLower

/-- The exponent after the digits of a decimal: nothing, or `e` with an optional sign and digits. -/
def readExponent? : Chars → Option Int
  | [] => some 0
  | mark :: rest =>
    if mark = 'e' ∨ mark = 'E' then
      let (negative, digits) := sign rest
      (readBase? 10 digits).map (signedInt negative)
    else none

def isPlainDigit (c : Char) : Bool := c.isDigit

/-- A decimal number: digits with an optional point, and an optional exponent. -/
def readDecimal? (negative : Bool) (body : Chars) : Option Binary64 :=
  let units := body.takeWhile isPlainDigit
  let rest := body.dropWhile isPlainDigit
  let (places, rest) := match rest with
    | '.' :: rest => (rest.takeWhile isPlainDigit, rest.dropWhile isPlainDigit)
    | _ => ([], rest)
  let digits := digitsOf (units ++ places)
  if digits.isEmpty then none
  else do
    let exponent ← readExponent? rest
    some (ofDecimal negative digits (exponent - places.length))

/-- A double precision number, infinities and not-a-number included. -/
def readReal? (text : String) : Option Binary64 :=
  let (negative, body) := sign (plain text.toList)
  let word := String.ofList (lowerAscii body)
  if word = "inf" ∨ word = "infinity" then some (.infinite negative)
  else if word = "nan" then some .nan
  else do
    if body.head? = some '_' then none
    else
      let body ← joinGroups? body
      readDecimal? negative body

end HeapAudit.Number
