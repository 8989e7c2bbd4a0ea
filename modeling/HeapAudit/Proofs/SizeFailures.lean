import HeapAudit.Proofs.Balance
import HeapAudit.Proofs.Counts
import HeapAudit.Proofs.Forms
import HeapAudit.Proofs.Lines
import HeapAudit.Proofs.Rounding

namespace HeapAudit
open Text Number

namespace Size

/-- Elements of a size, counted by a real number in double precision; zero counts as one. -/
def product (element : Nat) (x : Binary64) : Binary64 :=
  (Binary64.ofRatio false element 1).mul (if x.isZero then Binary64.ofRatio false 1 1 else x)

/-- No number, or too large: the greatest finite number is `2 ^ 1024 - 2 ^ 971`. -/
def Overflows (element : Nat) : Binary64 → Prop
  | .finite _ m e => 2 ^ 1024 - 2 ^ 970 ≤ (element : ℚ) * (m * 2 ^ e)
  | .infinite _ => True
  | .nan => True

/-- The parts of an argument text that are read as counts. -/
def countTexts (language : Language) (primitive : String) (cs : Chars) : List Chars :=
  if language.isCFamily then
    if primitive = "calloc" then (Statement.argumentList cs).take 2
    else if primitive = "new[]" then (searchName (run? isDigit) cs).toList.map (·.1)
    else if primitive = "new" then []
    else match product? cs with
      | some (n, _) => [n]
      | none => (searchName (run? isDigit) cs).toList.map (·.1)
  else (run? isDigit (trimLeft cs)).toList.map (·.1)

variable {language : Language} {e : Event} {cs run : Chars}

section Doubts

/-- A run of decimal digits is unreadable because of its length. -/
theorem Unreadable.numeral (h : Unreadable run) (hd : ∀ c ∈ run, isDigit c = true) :
    Doubtful (Size.numeral run) := by
  have hlong : 4300 < (trim run).length := by
    rcases h.unread with ⟨c, hc, hno⟩ | hlong
    · rw [hd c ((trim_sublist run).subset hc)] at hno
      cases hno
    · exact hlong
  exact doubtful_numeral (hlong.trans_le (trim_sublist run).length_le)

theorem doubtful_firstIntegerOrOne (h : Unreadable run)
    (hr : run ∈ (searchName (run? isDigit) cs).toList.map (·.1)) :
    Doubtful (firstIntegerOrOne cs) := by
  obtain ⟨⟨run, rest⟩, hm, rfl⟩ := List.mem_map.mp hr
  have hsearch := Option.mem_toList.mp hm
  obtain ⟨tail, -, hrun⟩ := search_some hsearch
  rw [firstIntegerOrOne, firstInteger, hsearch]
  exact ((h.numeral (run?_some hrun).2.1).map some).map _

theorem doubtful_leadingInteger (h : Unreadable run)
    (hr : run ∈ (run? isDigit (trimLeft cs)).toList.map (·.1)) :
    Doubtful (leadingInteger cs) := by
  obtain ⟨⟨run, rest⟩, hm, rfl⟩ := List.mem_map.mp hr
  have hrun := Option.mem_toList.mp hm
  rw [leadingInteger, hrun]
  exact (h.numeral (run?_some hrun).2.1).map atLeastOne

theorem doubtful_ofCalloc (h : Unreadable run)
    (hr : run ∈ (Statement.argumentList cs).take 2) : Doubtful (ofCalloc cs) := by
  have hparts : run = (Statement.argumentList cs).getD 0 [] ∨
      run = (Statement.argumentList cs).getD 1 [] := by
    cases hl : Statement.argumentList cs with
    | nil => simp [hl] at hr
    | cons first rest =>
      cases rest with
      | nil => exact .inl (by simpa [hl] using hr)
      | cons second rest => simpa [hl] using hr
  unfold ofCalloc
  rcases hparts with rfl | rfl
  · exact h.count.bind _
  · exact .bind_right (fun n => h.count.bind _) _

theorem doubtful_ofText {primitive : String} (hl : language.isCFamily = true)
    (h : Unreadable run) (hr : run ∈ countTexts language primitive cs) :
    Doubtful (ofText primitive cs) := by
  unfold countTexts at hr
  rw [if_pos hl] at hr
  unfold ofText
  split_ifs at hr ⊢ with hcalloc harray hnew
  · exact doubtful_ofCalloc h hr
  · exact (doubtful_firstIntegerOrOne h hr).map _
  · cases hr
  · cases hp : product? cs with
    | some found =>
      rw [hp] at hr
      obtain rfl := List.mem_singleton.mp hr
      exact h.count.map _
    | none =>
      rw [hp] at hr
      exact doubtful_firstIntegerOrOne h hr

/-- A count that cannot be read leaves the size in doubt. -/
theorem doubtful_measure {s : String} (ha : e.arguments = .text s) (h : Unreadable run)
    (hr : run ∈ countTexts language e.primitive s.toList) : Doubtful (measure language e) := by
  rw [measure, ha]
  split
  · rename_i hl
    exact ((doubtful_ofText hl h hr).bind _).map _
  · rename_i hl
    rw [countTexts, if_neg hl] at hr
    exact (doubtful_leadingInteger h hr).map _

theorem estimate_of_doubtful (h : Doubtful (measure language e)) :
    estimate language e = .ok (language.elementSize : Int) := by
  obtain ⟨d, hd⟩ := h
  unfold estimate
  rw [hd]
  cases language <;> rfl

end Doubts

section Products

/-- The size of an element is a number of double precision. -/
theorem exists_element (language : Language) :
    ∃ m e, Binary64.ofRatio false language.elementSize 1 = .finite false m e ∧ m ≠ 0 ∧
      (m : ℚ) * 2 ^ e = language.elementSize := by
  have hfour : Binary64.ofRatio false 4 1 = .finite false (2 ^ 52) (-50) := by decide +kernel
  have height : Binary64.ofRatio false 8 1 = .finite false (2 ^ 52) (-49) := by decide +kernel
  have hsize : language.elementSize = 4 ∨ language.elementSize = 8 := by
    cases language <;> decide
  rcases hsize with hsize | hsize
  · rw [hsize]
    exact ⟨_, _, hfour, by decide, by norm_num⟩
  · rw [hsize]
    exact ⟨_, _, height, by decide, by norm_num⟩

theorem elementSize_lt_limit (language : Language) :
    (language.elementSize : ℚ) < Binary64.limit := by
  obtain ⟨m, e, hm, -, -⟩ := exists_element language
  have hfinite : (Binary64.ofRatio false language.elementSize 1).isFinite = true := by
    rw [hm]
    rfl
  rw [Binary64.isFinite_ofRatio false _ one_pos] at hfinite
  rwa [Nat.cast_one, div_one] at hfinite

theorem not_overflows {x : Binary64} (hx : x.isZero = true) (element : Nat) :
    ¬ Overflows element x := by
  cases x with
  | nan => cases hx
  | infinite s => cases hx
  | finite s m e =>
    obtain rfl : m = 0 := by simpa [Binary64.isZero] using hx
    change ¬ Binary64.limit ≤ _
    simpa using Binary64.limit_pos

/-- The product is rounded to a finite number unless its exact value is too large. -/
theorem product_isFinite (language : Language) (x : Binary64) :
    (product language.elementSize x).isFinite = false ↔ Overflows language.elementSize x := by
  obtain ⟨m, e, hm, hne, hvalue⟩ := exists_element language
  have hexact : ∀ t k g, ((Binary64.finite false m e).mul (.finite t k g)).isFinite = false ↔
      Binary64.limit ≤ language.elementSize * ((k : ℚ) * 2 ^ g) := by
    intro t k g
    rw [← hvalue, ← not_lt, ← Binary64.isFinite_mul false m e t k g, Bool.not_eq_true]
  unfold product
  rw [hm]
  split
  · rename_i hx
    have hone : Binary64.ofRatio false 1 1 = .finite false (2 ^ 52) (-52) := by decide +kernel
    refine iff_of_false ?_ (not_overflows hx _)
    rw [hone, hexact]
    norm_num
    exact elementSize_lt_limit language
  · cases x with
    | nan => exact iff_of_true rfl trivial
    | infinite s => exact iff_of_true (by simp [Binary64.mul, hne, Binary64.isFinite]) trivial
    | finite s n f => exact hexact s n f

theorem map_whole_ne_real {α : Type} (x : Except Doubt α) (f : α → Int) (y : Binary64) :
    x.map (fun n => Amount.whole (f n)) ≠ .ok (.real y) := by
  cases x with
  | error d => exact fun h => by cases h
  | ok n => exact fun h => by cases h

theorem ofElements_real {element : Nat} {args : Arguments} {y : Binary64}
    (h : ofElements element args = .ok (.real y)) :
    ∃ x rest, args = .values (.real x :: rest) ∧ x.isZero = false ∧
      y = (Binary64.ofRatio false element 1).mul x := by
  unfold ofElements at h
  split at h
  · cases h
  · rename_i x rest
    cases hx : x.isZero with
    | true =>
      rw [hx, if_pos rfl] at h
      cases h
    | false =>
      rw [hx] at h
      cases h
      exact ⟨x, rest, rfl, hx, rfl⟩
  · cases h
  · exact absurd h (map_whole_ne_real _ _ y)
  · split at h
    · exact absurd h (map_whole_ne_real _ _ y)
    · cases h

/-- Only a real number that is not zero gives an amount that is not whole. -/
theorem measure_real {y : Binary64} : measure language e = .ok (.real y) ↔
    language.isCFamily = false ∧ ∃ x rest, e.arguments = .values (.real x :: rest) ∧
      x.isZero = false ∧ y = (Binary64.ofRatio false language.elementSize 1).mul x := by
  constructor
  · intro h
    unfold measure at h
    split at h
    · exact absurd h (map_whole_ne_real _ _ y)
    · rename_i hl
      exact ⟨Bool.eq_false_iff.mpr hl, ofElements_real h⟩
  · rintro ⟨hl, x, rest, ha, hx, rfl⟩
    simp [measure, hl, ha, ofElements, hx]

theorem estimate_error : (∃ why, estimate language e = .error why) ↔
    ∃ y, measure language e = .ok (.real y) ∧ y.isFinite = false := by
  unfold estimate
  cases hm : measure language e with
  | error d => simp [Amount.toWhole, Except.map]
  | ok amount =>
    cases amount with
    | whole n => simp [Amount.toWhole, Except.map]
    | real y => cases y <;> simp [Amount.toWhole, Except.map, Binary64.isFinite]

theorem estimate_error_iff : (∃ why, estimate language e = .error why) ↔
    language.isCFamily = false ∧ ∃ x rest, e.arguments = .values (.real x :: rest) ∧
      (product language.elementSize x).isFinite = false := by
  rw [estimate_error]
  constructor
  · rintro ⟨y, hy, hfinite⟩
    obtain ⟨hl, x, rest, ha, hx, rfl⟩ := measure_real.mp hy
    refine ⟨hl, x, rest, ha, ?_⟩
    rwa [product, hx]
  · rintro ⟨hl, x, rest, ha, hfinite⟩
    have hx : x.isZero = false := by
      rw [Bool.eq_false_iff]
      exact fun hzero => not_overflows hzero _ ((product_isFinite language x).mp hfinite)
    refine ⟨_, measure_real.mpr ⟨hl, x, rest, ha, hx, rfl⟩, ?_⟩
    rwa [product, hx] at hfinite

end Products

/-- Sizing fails just where a language that is not of the C family counts elements by a real number
and their product is not finite in double precision. Everything else has a size of at least one
byte; in particular a text has one, and that of an element if a count in it cannot be read. -/
theorem estimate_fails (name : Value) (e : Event) :
    let language := Language.resolve name
    ((∃ why, estimate language e = .error why) ↔
      language.isCFamily = false ∧ ∃ x rest, e.arguments = .values (.real x :: rest) ∧
        (product language.elementSize x).isFinite = false) ∧
    ((¬ ∃ why, estimate language e = .error why) →
      ∃ size, 1 ≤ size ∧ estimate language e = .ok size) ∧
    (∀ x, (product language.elementSize x).isFinite = false ↔
      Overflows language.elementSize x) ∧
    ∀ s, e.arguments = .text s →
      (∃ cs ∈ countTexts language e.primitive s.toList, Unreadable cs) →
        estimate language e = .ok (language.elementSize : Int) := by
  intro language
  refine ⟨estimate_error_iff, ?_, product_isFinite language, ?_⟩
  · intro hno
    cases h : estimate language e with
    | error why => exact absurd ⟨why, h⟩ hno
    | ok size => exact ⟨size, estimate_positive h, rfl⟩
  · rintro s ha ⟨cs, hcs, hu⟩
    exact estimate_of_doubtful (doubtful_measure ha hu hcs)

/-- An acquisition with given arguments. -/
def acquired (primitive : String) (arguments : Arguments) : Event :=
  { kind := .allocation, var := "p", line := some 1, primitive, arguments }

/-- The greatest finite number overflows as a count; a superscript cannot be read. -/
theorem estimate_fails_greatest :
    (∃ why, estimate (Language.resolve (.text " JS"))
      (acquired "Array" (.values [.real (.finite false (2 ^ 53 - 1) 971), .null])) = .error why) ∧
    estimate (Language.resolve (.text "c++"))
      (acquired "calloc" (.text "f(2, k), 7²")) = .ok 4 := by
  have hscript : Language.resolve (.text " JS") = .javascript := by decide +kernel
  have hcpp : Language.resolve (.text "c++") = .cpp := by decide +kernel
  obtain ⟨hfails, -, -, -⟩ := estimate_fails (.text " JS")
    (acquired "Array" (.values [.real (.finite false (2 ^ 53 - 1) 971), .null]))
  obtain ⟨-, -, -, hdefault⟩ := estimate_fails (.text "c++")
    (acquired "calloc" (.text "f(2, k), 7²"))
  rw [hscript] at hfails ⊢
  rw [hcpp] at hdefault ⊢
  refine ⟨hfails.mpr ⟨rfl, _, _, rfl, by decide +kernel⟩, hdefault _ rfl ⟨['7', '²'], ?_, ?_⟩⟩
  · decide +kernel
  · have hfigures : (trim ['7', '²']).all isFigure = true := by decide +kernel
    exact ⟨by decide, List.all_eq_true.mp hfigures, .inl ⟨'²', by decide, by decide +kernel⟩⟩

end Size

end HeapAudit
