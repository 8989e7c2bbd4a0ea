import HeapAudit.Number.Binary64

namespace HeapAudit.Number

/-- A fraction `n / d`. -/
structure Fraction where
  n : Nat
  d : Nat

def Fraction.le (a b : Fraction) : Bool := a.n * b.d ≤ b.n * a.d

def Fraction.lt (a b : Fraction) : Bool := a.n * b.d < b.n * a.d

/-- `q * 10 ^ k`. -/
def Fraction.ofDecimal (q : Nat) (k : Int) : Fraction :=
  if 0 ≤ k then ⟨q * Nat.pow 10 k.toNat, 1⟩ else ⟨q, Nat.pow 10 (-k).toNat⟩

/-- The reals that round to a number; the ends belong to it when its significand is even. -/
structure Interval where
  low : Fraction
  high : Fraction
  closed : Bool

def Interval.contains (i : Interval) (x : Fraction) : Bool :=
  if i.closed then i.low.le x && x.le i.high else i.low.lt x && x.lt i.high

def quarter (m : Nat) (e : Int) : Fraction :=
  let (n, d) := Binary64.ratio m e
  ⟨n, d * 4⟩

def roundingInterval (m : Nat) (e : Int) : Interval :=
  let below := if m = 1 <<< 52 ∧ Binary64.leastExponent < e then 1 else 2
  { low := quarter (4 * m - below) e, high := quarter (4 * m + 2) e, closed := m % 2 == 0 }

/-- The exponent `k` with `10 ^ (k - 1) ≤ x < 10 ^ k`, searched upwards. -/
def magnitudeFrom (x : Fraction) : (fuel : Nat) → (k : Int) → Int
  | 0, k => k
  | fuel + 1, k => if x.lt (Fraction.ofDecimal 1 k) then k else magnitudeFrom x fuel (k + 1)

def magnitude (x : Fraction) : Int :=
  let guess : Int := ((Nat.log2 x.n : Int) - (Nat.log2 x.d : Int) - 1) * 30103 / 100000 - 1
  magnitudeFrom x 8 guess

/-- The better of the two neighbours of `x` on the grid of multiples of `10 ^ k`, if any of them
lies in the interval. -/
def neighbour? (i : Interval) (x : Fraction) (k : Int) : Option Nat :=
  let unit := Fraction.ofDecimal 1 k
  let q := x.n * unit.d / (x.d * unit.n)
  let lower := i.contains (Fraction.ofDecimal q k)
  let upper := i.contains (Fraction.ofDecimal (q + 1) k)
  if lower && upper then
    let half := Fraction.ofDecimal (2 * q + 1) k
    let twice : Fraction := ⟨2 * x.n, x.d⟩
    if twice.lt half then some q
    else if half.lt twice then some (q + 1)
    else some (if q % 2 = 0 then q else q + 1)
  else if lower then some q
  else if upper then some (q + 1)
  else none

/-- The digits as a number and the exponent of their last place. -/
def shortestFrom (i : Interval) (x : Fraction) (top : Int) : (fuel count : Nat) → Nat × Int
  | 0, count => ((neighbour? i x (top - count)).getD 0, top - count)
  | fuel + 1, count =>
    match neighbour? i x (top - count) with
    | some q => (q, top - count)
    | none => shortestFrom i x top fuel (count + 1)

/-- The fewest digits that read back as the number, and of those the nearest. -/
def shortest (m : Nat) (e : Int) : Nat × Int :=
  let (n, d) := Binary64.ratio m e
  let x : Fraction := ⟨n, d⟩
  shortestFrom (roundingInterval m e) x (magnitude x) 17 1

/-- Drops the zeros at the end of the digits. -/
def dropZeros : (fuel q : Nat) → Int → Nat × Int
  | 0, q, k => (q, k)
  | fuel + 1, q, k => if q ≠ 0 ∧ q % 10 = 0 then dropZeros fuel (q / 10) (k + 1) else (q, k)

def zerosText (n : Nat) : String := String.ofList (List.replicate n '0')

/-- Positional from `10 ^ -4` up to `10 ^ 16`, with at least one place; otherwise one digit before
the point and an exponent of at least two digits. -/
def layout (q : Nat) (k : Int) : String :=
  let digits := Nat.toDigits 10 q
  let point : Int := digits.length + k
  if -4 < point ∧ point ≤ 16 then
    if point ≤ 0 then "0." ++ zerosText (-point).toNat ++ String.ofList digits
    else if point < digits.length then
      String.ofList (digits.take point.toNat) ++ "." ++ String.ofList (digits.drop point.toNat)
    else String.ofList digits ++ zerosText (point - digits.length).toNat ++ ".0"
  else
    let power := (point - 1).natAbs
    let mark := if point - 1 < 0 then "e-" else "e+"
    let powerText := (if power < 10 then "0" else "") ++ toString power
    match digits with
    | [d] => String.ofList [d] ++ mark ++ powerText
    | d :: rest => String.ofList [d] ++ "." ++ String.ofList rest ++ mark ++ powerText
    | [] => "0.0"

def Binary64.text : Binary64 → String
  | .nan => "nan"
  | .infinite s => if s then "-inf" else "inf"
  | .finite s m e =>
    let size :=
      if m = 0 then "0.0"
      else
        let (q, k) := shortest m e
        let (q, k) := dropZeros 20 q k
        layout q k
    if s then "-" ++ size else size

end HeapAudit.Number
