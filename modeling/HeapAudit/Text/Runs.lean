namespace HeapAudit.Text

def rankIn (table : Array Nat) (n lo hi : Nat) : Nat :=
  if lo < hi then
    let mid := (lo + hi) / 2
    if table.getD mid 0 ≤ n then rankIn table n (mid + 1) hi else rankIn table n lo mid
  else lo
termination_by hi - lo

/-- How many entries of an ascending table are at most `n`. -/
def rank (table : Array Nat) (n : Nat) : Nat := rankIn table n 0 table.size

/-- A table of runs lists, in ascending order, the first code of each run and the first code after
it, so a code lies in a run when an odd number of entries are at most it. -/
def inRuns (table : Array Nat) (n : Nat) : Bool := rank table n % 2 == 1

end HeapAudit.Text
