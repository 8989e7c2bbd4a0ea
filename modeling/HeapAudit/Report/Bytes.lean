import HeapAudit.Number.Places
import HeapAudit.Value

namespace HeapAudit.Report
open Number

/-- The amount has no double precision number. -/
inductive Oversized where
  | oversized
  deriving DecidableEq, Repr

def Oversized.message (_ : Oversized) : String := "int too large to convert to float"

def units : List String := ["B", "KB", "MB", "GB"]

/-- The unit of an amount of `n / d` bytes: the largest one that it reaches. -/
def unitOf (n d : Nat) : Nat :=
  if n < d <<< 10 then 0
  else if n < d <<< 20 then 1
  else if n < d <<< 30 then 2
  else 3

def unitName (u : Nat) : String := units.getD u ""

/-- The amount `m * 2 ^ e`, of whose unit `2 ^ 10` is the step. -/
def finiteBytes (m : Nat) (e : Int) : String :=
  let (n, d) := Binary64.ratio m e
  let u := unitOf n d
  hundredthsText (hundredths m (e - 10 * u)) ++ " " ++ unitName u

def nothing : String := "0 B"

def realBytes : Binary64 → String
  | .nan => "nan B"
  | .infinite negative => if negative then nothing else "inf GB"
  | .finite negative m e => if negative || m == 0 then nothing else finiteBytes m e

/-- Units go up in steps of 1024, and the amount has at most two decimal places. -/
def bytes (n : Int) : Except Oversized String :=
  if n ≤ 0 then .ok nothing
  else match Binary64.ofInt? n with
    | some x => .ok (realBytes x)
    | none => .error .oversized

/-- The amount that a value stands for; what is no number stands for nothing. -/
def bytesOf : Value → Except Oversized String
  | .int n => bytes n
  | .real x => .ok (realBytes x)
  | .bool b => bytes (if b then 1 else 0)
  | _ => .ok nothing

end HeapAudit.Report
