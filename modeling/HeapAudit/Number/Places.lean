import HeapAudit.Number.Binary64

namespace HeapAudit.Number

/-- The size of a finite number in hundredths, rounded. -/
def hundredths (m : Nat) (e : Int) : Nat :=
  let (n, d) := Binary64.ratio m e
  roundDiv (100 * n) d

/-- Zeros at the end are left out together with a point that has nothing after it. -/
def hundredthsText (h : Nat) : String :=
  let units := toString (h / 100)
  let tenth := h / 10 % 10
  let hundredth := h % 10
  if hundredth ≠ 0 then units ++ "." ++ toString tenth ++ toString hundredth
  else if tenth ≠ 0 then units ++ "." ++ toString tenth
  else units

end HeapAudit.Number
