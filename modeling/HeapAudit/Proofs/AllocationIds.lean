import HeapAudit.Ledger

namespace HeapAudit.Ledger

theorem serialText_toList (n : Nat) :
    (serialText n).toList =
      List.replicate (12 - (toString n).length) '0' ++ Nat.toDigits 10 n := by
  unfold serialText
  rw [String.toList_append, String.toList_ofList, Nat.toString_eq_ofList_toDigits,
    String.toList_ofList]

theorem serialText_value (n : Nat) : Nat.ofDigitChars 10 (serialText n).toList 0 = n := by
  rw [serialText_toList, Nat.ofDigitChars_append, Nat.ofDigitChars_replicate_zero, Nat.mul_zero,
    Nat.ofDigitChars_ten_toDigits]

theorem underscore_not_mem_serialText (n : Nat) : '_' ∉ (serialText n).toList := by
  rw [serialText_toList, List.mem_append, not_or]
  refine ⟨?_, Nat.underscore_not_in_toDigits⟩
  intro hm
  exact absurd (List.mem_replicate.mp hm).2 (by decide)

/-- A stem and the number that tells its ids apart. -/
def numberedId (stem : String) (n : Nat) : String := stem ++ "_" ++ serialText n

theorem allocationId_eq (var : String) (line : LineNo) (n : Nat) :
    allocationId var line n = numberedId (var ++ "_line" ++ line.text) n := rfl

/-- What follows the last underscore. -/
def idTail (id : String) : List Char := (id.toList.reverse.takeWhile (· ≠ '_')).reverse

theorem idTail_numberedId (stem : String) (n : Nat) :
    idTail (numberedId stem n) = (serialText n).toList := by
  have hclean : ∀ c ∈ (serialText n).toList.reverse, decide (c ≠ '_') = true := by
    intro c hc
    have hne : c ≠ '_' := fun he => underscore_not_mem_serialText n (he ▸ List.mem_reverse.mp hc)
    simpa using hne
  have hsplit : (numberedId stem n).toList.reverse =
      (serialText n).toList.reverse ++ '_' :: stem.toList.reverse := by
    simp [numberedId]
  unfold idTail
  rw [hsplit, List.takeWhile_append_of_pos hclean]
  simp

theorem numberedId_inj {stem stem' : String} {m n : Nat}
    (h : numberedId stem m = numberedId stem' n) : stem = stem' ∧ m = n := by
  have ht := congrArg idTail h
  rw [idTail_numberedId, idTail_numberedId] at ht
  have hn : m = n := by rw [← serialText_value m, ht, serialText_value]
  subst hn
  refine ⟨?_, rfl⟩
  have hl := congrArg String.toList h
  simp only [numberedId, String.toList_append] at hl
  exact String.toList_injective (List.append_cancel_right (List.append_cancel_right hl))

/-- Allocations with different numbers have different ids, whatever their variables and lines
are. -/
theorem serial_of_allocationId {var var' : String} {line line' : LineNo} {m n : Nat}
    (h : allocationId var line m = allocationId var' line' n) : m = n :=
  (numberedId_inj h).2

end HeapAudit.Ledger
