namespace HeapAudit.Number

/-- The quotient rounded to the nearest whole number, a tie going to the even one. -/
def roundDiv (n d : Nat) : Nat :=
  let q := n / d
  let r := n % d
  if 2 * r < d then q
  else if 2 * r = d then (if q % 2 = 0 then q else q + 1)
  else q + 1

/-- `n * 2 ^ k / d`, rounded. -/
def roundScaled (n d : Nat) (k : Int) : Nat :=
  if 0 ≤ k then roundDiv (n <<< k.toNat) d else roundDiv n (d <<< (-k).toNat)

/-- A double precision number as an exact dyadic value. A finite number is a sign, a significand
below `2 ^ 53` and a power of two not below `-1074`; arithmetic is done exactly and then rounded to
the nearest number, a tie going to the even significand. -/
inductive Binary64 where
  | nan
  | infinite (negative : Bool)
  | finite (negative : Bool) (significand : Nat) (exponent : Int)
  deriving DecidableEq, Repr

namespace Binary64

def leastExponent : Int := -1074

def greatestExponent : Int := 971

/-- Whether `n / d` is at least `2 ^ k`. -/
def reaches (n d : Nat) (k : Int) : Bool :=
  if 0 ≤ k then decide (d <<< k.toNat ≤ n) else decide (d ≤ n <<< (-k).toNat)

/-- The exponent of the last place of a number of the size of `n / d`. -/
def placeOf (n d : Nat) : Int :=
  let guess : Int := (Nat.log2 n : Int) - (Nat.log2 d : Int)
  let top := if reaches n d guess then guess else guess - 1
  max leastExponent (top - 52)

/-- The number nearest to `n / d`. -/
def ofRatio (negative : Bool) (n d : Nat) : Binary64 :=
  if n = 0 then .finite negative 0 leastExponent
  else
    let e := placeOf n d
    let m := roundScaled n d (-e)
    let (m, e) := if m = 1 <<< 53 then (1 <<< 52, e + 1) else (m, e)
    if greatestExponent < e then .infinite negative else .finite negative m e

/-- The number nearest to `m * 2 ^ e`. -/
def ofDyadic (negative : Bool) (m : Nat) (e : Int) : Binary64 :=
  if 0 ≤ e then ofRatio negative (m <<< e.toNat) 1 else ofRatio negative m (1 <<< (-e).toNat)

/-- The number nearest to an integer, unless that integer is out of range. -/
def ofInt? (n : Int) : Option Binary64 :=
  match ofRatio (n < 0) n.natAbs 1 with
  | .finite s m e => some (.finite s m e)
  | _ => none

def isZero : Binary64 → Bool
  | .finite _ m _ => m == 0
  | _ => false

def isFinite : Binary64 → Bool
  | .finite _ _ _ => true
  | _ => false

def signed (negative : Bool) (m : Nat) : Int := if negative then -(m : Int) else m

def mul : Binary64 → Binary64 → Binary64
  | .nan, _ => .nan
  | _, .nan => .nan
  | .infinite s, .infinite t => .infinite (s != t)
  | .infinite s, .finite t m _ => if m = 0 then .nan else .infinite (s != t)
  | .finite s m _, .infinite t => if m = 0 then .nan else .infinite (s != t)
  | .finite s m e, .finite t n f => ofDyadic (s != t) (m * n) (e + f)

def addFinite (s : Bool) (m : Nat) (e : Int) (t : Bool) (n : Nat) (f : Int) : Binary64 :=
  let low := min e f
  let sum := signed s (m <<< (e - low).toNat) + signed t (n <<< (f - low).toNat)
  if sum = 0 then .finite (s && t) 0 leastExponent
  else ofDyadic (decide (sum < 0)) sum.natAbs low

def add : Binary64 → Binary64 → Binary64
  | .nan, _ => .nan
  | _, .nan => .nan
  | .infinite s, .infinite t => if s = t then .infinite s else .nan
  | .infinite s, .finite _ _ _ => .infinite s
  | .finite _ _ _, .infinite t => .infinite t
  | .finite s m e, .finite t n f => addFinite s m e t n f

/-- The size of a finite number as a fraction. -/
def ratio (m : Nat) (e : Int) : Nat × Nat :=
  if 0 ≤ e then (m <<< e.toNat, 1) else (m, 1 <<< (-e).toNat)

/-- The whole part of a finite number. -/
def whole (negative : Bool) (m : Nat) (e : Int) : Int :=
  let (n, d) := ratio m e
  signed negative (n / d)

end Binary64

end HeapAudit.Number
