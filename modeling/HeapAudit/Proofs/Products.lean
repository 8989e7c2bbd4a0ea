import HeapAudit.Proofs.ArgumentLists
import HeapAudit.Proofs.Counts

namespace HeapAudit.Size
open Text

section Readers

variable {cs inside : Chars}

theorem sizeOf?_append (ho : '(' ∉ inside) (hc : ')' ∉ inside) (rest : Chars) :
    sizeOf? ("sizeof".toList ++ '(' :: (inside ++ ')' :: rest)) = some (trim inside, rest) := by
  have hopen : opens? "sizeof".toList '(' ("sizeof".toList ++ '(' :: (inside ++ ')' :: rest)) =
      some (inside ++ ')' :: rest) :=
    (opens?_iff (by decide)).mpr ⟨[], by simp, by rw [List.append_nil]⟩
  have hpass : ∀ c ∈ inside, (c != '(' && c != ')') = true := by
    intro c hm
    have hne : c ≠ '(' ∧ c ≠ ')' := ⟨ne_of_mem_of_not_mem hm ho, ne_of_mem_of_not_mem hm hc⟩
    simp [hne]
  rw [sizeOf?, hopen]
  simp [List.takeWhile_append_of_pos hpass, List.dropWhile_append_of_pos hpass, char?]

/-- A parenthesis opens after the star of a product with the count first. -/
theorem countTimesType?_some {found : Chars × Chars} (h : countTimesType? cs = some found) :
    ∃ before after, cs = before ++ '(' :: after ∧ '*' ∈ before := by
  simp only [countTimesType?, sizeOf?, Option.bind_eq_bind, Option.bind_eq_some_iff] at h
  obtain ⟨⟨n, tail⟩, hn, starred, hstar, ⟨type, unread⟩, ⟨opened, hopen, -⟩, -⟩ := h
  obtain ⟨gap, -, hgap⟩ := (opens?_iff (by decide)).mp hopen
  obtain ⟨space, -, hspace⟩ := exists_blanks tail
  obtain ⟨blanks, -, hblanks⟩ := exists_blanks starred
  refine ⟨n ++ space ++ '*' :: (blanks ++ "sizeof".toList ++ gap), opened, ?_,
    List.mem_append_right _ List.mem_cons_self⟩
  calc cs = n ++ (space ++ '*' :: starred) := by
        rw [(run?_some hn).2.2, ← char?_some hstar, ← hspace]
    _ = n ++ space ++ '*' :: (blanks ++ ("sizeof".toList ++ gap ++ '(' :: opened)) := by
        rw [← hgap, ← hblanks, List.append_assoc]
    _ = _ := by simp only [List.append_assoc, List.cons_append]

end Readers

/-- Blanks of any kind, or none. -/
def AllBlank (cs : Chars) : Prop := ∀ c ∈ cs, isBlank c = true

instance (cs : Chars) : Decidable (AllBlank cs) := List.decidableBAll _ cs

abbrev Blanks := { cs : Chars // AllBlank cs }

theorem Blanks.not_mem (gap : Blanks) {c : Char} (hc : isBlank c = false) : c ∉ gap.1 := by
  intro hm
  rw [gap.2 c hm] at hc
  cases hc

/-- A count and a type to be multiplied. -/
structure Product where
  count : Chars
  type : Chars
  count_ne_nil : count ≠ []
  count_part : ∀ c ∈ count, isNamePart c = true
  type_open : '(' ∉ type
  type_close : ')' ∉ type

/-- The blanks of a product as it is written. -/
structure Spread where
  beforeStar : Blanks
  afterStar : Blanks
  beforeType : Blanks
  afterType : Blanks

namespace Product

variable (p : Product) (s : Spread)

/-- What stands between the parentheses. -/
def inside : Chars := s.beforeType.1 ++ p.type ++ s.afterType.1

/-- `sizeof(type)` -/
def sizeOfType : Chars := "sizeof".toList ++ '(' :: p.inside s ++ [')']

/-- `count * sizeof(type)` -/
def countFirst : Chars := p.count ++ s.beforeStar.1 ++ '*' :: s.afterStar.1 ++ p.sizeOfType s

/-- `sizeof(type) * count` -/
def typeFirst : Chars := p.sizeOfType s ++ s.beforeStar.1 ++ '*' :: s.afterStar.1 ++ p.count

theorem not_mem_inside {c : Char} (hc : isBlank c = false) (ht : c ∉ p.type) : c ∉ p.inside s := by
  simp [inside, ht, s.beforeType.not_mem hc, s.afterType.not_mem hc]

theorem trim_inside : trim (p.inside s) = trim p.type :=
  trim_blanks s.beforeType.2 s.afterType.2 p.type

theorem sizeOfType_append (rest : Chars) :
    p.sizeOfType s ++ rest = "sizeof".toList ++ '(' :: (p.inside s ++ ')' :: rest) := by
  -- Not by the defining equation: to state it, the word would be evaluated.
  delta sizeOfType
  simp only [List.append_assoc, List.cons_append, List.nil_append]

theorem sizeOf?_sizeOfType (rest : Chars) :
    sizeOf? (p.sizeOfType s ++ rest) = some (trim p.type, rest) := by
  have hopen := p.not_mem_inside s (by decide) p.type_open
  have hclose := p.not_mem_inside s (by decide) p.type_close
  rw [p.sizeOfType_append s, sizeOf?_append hopen hclose, p.trim_inside]

theorem count_not_blank {c : Char} (hc : c ∈ p.count) : isBlank c = false := by
  by_contra hb
  have hpart := isNamePart_of_isBlank (by simpa using hb)
  rw [p.count_part c hc] at hpart
  cases hpart

theorem trimLeft_count : trimLeft p.count = p.count := by
  obtain ⟨c, cs, hcount⟩ := List.exists_cons_of_ne_nil p.count_ne_nil
  rw [hcount]
  exact trimLeft_cons (p.count_not_blank (by simp [hcount])) cs

theorem trim_count : trim p.count = p.count := by
  obtain ⟨cs, c, hcount⟩ := List.eq_nil_or_concat p.count |>.resolve_left p.count_ne_nil
  rw [trim, p.trimLeft_count, hcount, List.concat_eq_append]
  exact trimRight_concat (p.count_not_blank (by simp [hcount])) cs

/-- The count is read up to its end. -/
theorem run?_count {rest : Chars} (hr : ∀ c, rest.head? = some c → isNamePart c = false) :
    run? isNamePart (p.count ++ rest) = some (p.count, rest) :=
  run?_append p.count_ne_nil p.count_part hr

/-- The star is read past the blanks before it. -/
theorem char?_star (rest : Chars) :
    char? '*' (trimLeft (s.beforeStar.1 ++ '*' :: rest)) = some rest := by
  rw [trimLeft_blanks_cons s.beforeStar.2 (by decide)]
  rfl

theorem countTimesType?_countFirst :
    countTimesType? (p.countFirst s) = some (p.count, trim p.type) := by
  have hsplit : p.countFirst s =
      p.count ++ (s.beforeStar.1 ++ '*' :: (s.afterStar.1 ++ p.sizeOfType s)) := by
    simp [countFirst]
  have hcount : run? isNamePart (p.countFirst s) =
      some (p.count, s.beforeStar.1 ++ '*' :: (s.afterStar.1 ++ p.sizeOfType s)) := by
    rw [hsplit]
    exact p.run?_count fun _ hd =>
      head_blanks s.beforeStar.2 (fun _ => isNamePart_of_isBlank) (by decide) hd
  have htrim : trimLeft (s.afterStar.1 ++ p.sizeOfType s) = p.sizeOfType s :=
    trimLeft_blanks_cons s.afterStar.2 (by decide) _
  have htype : sizeOf? (trimLeft (s.afterStar.1 ++ p.sizeOfType s)) = some (trim p.type, []) := by
    rw [htrim, ← List.append_nil (p.sizeOfType s)]
    exact p.sizeOf?_sizeOfType s []
  rw [countTimesType?, hcount]
  simp [char?_star, htype]

theorem typeTimesCount?_typeFirst :
    typeTimesCount? (p.typeFirst s) = some (p.count, trim p.type) := by
  have hsplit : p.typeFirst s =
      p.sizeOfType s ++ (s.beforeStar.1 ++ '*' :: (s.afterStar.1 ++ p.count)) := by
    simp [typeFirst]
  have hcount : run? isNamePart (trimLeft (s.afterStar.1 ++ p.count)) = some (p.count, []) := by
    rw [trimLeft_blanks s.afterStar.2, p.trimLeft_count]
    nth_rewrite 1 [← List.append_nil p.count]
    exact p.run?_count (by simp)
  rw [typeTimesCount?, hsplit, p.sizeOf?_sizeOfType s]
  simp [char?_star, hcount]

/-- The count is not found first where the type is: no star comes before the parenthesis. -/
theorem searchName_typeFirst : searchName countTimesType? (p.typeFirst s) = none := by
  cases h : searchName countTimesType? (p.typeFirst s) with
  | none => rfl
  | some found =>
    obtain ⟨outer, rest, hsplit, -, hfound⟩ := search_place h
    obtain ⟨before, after, rfl, hstar⟩ := countTimesType?_some hfound
    have hsame : "sizeof".toList ++ '(' :: (p.inside s ++ ')' :: (s.beforeStar.1 ++
        '*' :: (s.afterStar.1 ++ p.count))) = outer ++ before ++ '(' :: after := by
      rw [List.append_assoc, ← hsplit, ← p.sizeOfType_append s]
      simp [typeFirst]
    have hcount : '(' ∉ p.count := fun hm => absurd (p.count_part _ hm) (by decide)
    have hrest : '(' ∉ p.inside s ++ ')' :: (s.beforeStar.1 ++
        '*' :: (s.afterStar.1 ++ p.count)) := by
      have hblank : isBlank '(' = false := by decide
      simp [p.not_mem_inside s hblank p.type_open, s.beforeStar.not_mem hblank,
        s.afterStar.not_mem hblank, hcount]
    have hword := ((List.append_cons_inj_of_notMem (by decide) hrest).mp hsame).1
    have hin : '*' ∈ "sizeof".toList := hword ▸ List.mem_append_right outer hstar
    exact absurd hin (by decide)

theorem product?_countFirst : product? (p.countFirst s) = some (p.count, trim p.type) := by
  have hfound : searchName countTimesType? (p.countFirst s) = some (p.count, trim p.type) :=
    search_start rfl (p.countTimesType?_countFirst s)
  rw [product?, hfound]
  rfl

theorem product?_typeFirst : product? (p.typeFirst s) = some (p.count, trim p.type) := by
  rw [product?, p.searchName_typeFirst s, search_start rfl (p.typeTimesCount?_typeFirst s)]
  rfl

theorem count_digits (hdigits : ∀ c ∈ p.count, isDigit c = true)
    (hlength : p.count.length ≤ 4300) :
    Size.count p.count = .ok (max (Nat.ofDigits 10 (Number.digitsOf p.count).reverse) 1) := by
  rw [← p.trim_count] at hdigits hlength
  have hne : trim p.count ≠ [] := p.trim_count.symm ▸ p.count_ne_nil
  have hcounts := (Counts.numeral hne hdigits hlength).count_eq
  rwa [p.trim_count, max_comm] at hcounts

end Product

theorem ofType_pos (name : Chars) : 1 ≤ ofType name := by
  unfold ofType
  generalize hfound : typeSizes.find? _ = found
  cases found with
  | none => decide
  | some entry =>
    have hsizes : ∀ entry ∈ typeSizes, 1 ≤ entry.2 := by decide
    exact hsizes entry (List.mem_of_find?_eq_some hfound)

theorem ofText_product {primitive : String} (hp : primitive ∉ ["calloc", "new", "new[]"])
    {cs n type : Chars} (h : product? cs = some (n, type)) :
    ofText primitive cs = (count n).map (· * ofType type) := by
  simp only [List.mem_cons, List.not_mem_nil, or_false, not_or] at hp
  obtain ⟨hcalloc, hnew, harray⟩ := hp
  rw [ofText, if_neg hcalloc, if_neg harray, if_neg hnew, h]

/-- A product has the same size in either order. If its count is a numeral, that size is the count,
but at least one, times the size of the type. -/
theorem product_size {language : Language} (hl : language.isCFamily = true) (e : Event)
    (hp : e.primitive ∉ ["calloc", "new", "new[]"]) (p : Product) (s s' : Spread) :
    ∃ n : Int,
      estimate language { e with arguments := .text (String.ofList (p.countFirst s)) } = .ok n ∧
      estimate language { e with arguments := .text (String.ofList (p.typeFirst s')) } = .ok n ∧
      ((∀ c ∈ p.count, isDigit c = true) → p.count.length ≤ 4300 →
        n = (max (Nat.ofDigits 10 (Number.digitsOf p.count).reverse) 1 * ofType (trim p.type) :
          Nat)) := by
  have hfirst := estimate_text hl
    (e := { e with arguments := .text (String.ofList (p.countFirst s)) }) rfl
  have hlast := estimate_text hl
    (e := { e with arguments := .text (String.ofList (p.typeFirst s')) }) rfl
  rw [String.toList_ofList, ofText_product hp (p.product?_countFirst s)] at hfirst
  rw [String.toList_ofList, ofText_product hp (p.product?_typeFirst s')] at hlast
  rw [hfirst, hlast]
  cases hcount : count p.count with
  | error d =>
    refine ⟨_, rfl, rfl, fun hdigits hlength => ?_⟩
    rw [p.count_digits hdigits hlength] at hcount
    cases hcount
  | ok m =>
    refine ⟨_, rfl, rfl, fun hdigits hlength => ?_⟩
    rw [p.count_digits hdigits hlength] at hcount
    cases hcount
    have hpos : 1 ≤ max (Nat.ofDigits 10 (Number.digitsOf p.count).reverse) 1 *
        ofType (trim p.type) :=
      Nat.mul_pos (lt_max_of_lt_right Nat.one_pos) (ofType_pos _)
    exact max_eq_right (by exact_mod_cast hpos)

/-- Thirty pointers; the count has digits of two scripts, and the type has a star of its own. -/
def thirtyPointers : Product where
  count := ['٣', '0']
  type := "long double *".toList
  count_ne_nil := by decide
  count_part := List.all_eq_true.mp (by decide +kernel)
  type_open := by decide
  type_close := by decide

/-- Memory that is resized to what the text says. -/
def resizing (text : String) : Event :=
  { kind := .allocation, var := "p", line := some 1, primitive := "realloc",
    arguments := .text text }

theorem product_size_thirty :
    estimate .cpp (resizing "٣0 *\tsizeof(long double * )") = .ok 240 ∧
      estimate .cpp (resizing "sizeof(\nlong double *)* ٣0") = .ok 240 := by
  let first : Spread :=
    ⟨⟨[' '], by decide⟩, ⟨['\t'], by decide⟩, ⟨[], by decide⟩, ⟨[' '], by decide⟩⟩
  let last : Spread :=
    ⟨⟨[], by decide⟩, ⟨[' '], by decide⟩, ⟨['\n'], by decide⟩, ⟨[], by decide⟩⟩
  have hfirst :
      String.ofList (thirtyPointers.countFirst first) = "٣0 *\tsizeof(long double * )" := by
    decide
  have hlast : String.ofList (thirtyPointers.typeFirst last) = "sizeof(\nlong double *)* ٣0" := by
    decide
  obtain ⟨n, hn, hn', hvalue⟩ := product_size (show Language.cpp.isCFamily = true from rfl)
    (resizing "") (by decide) thirtyPointers first last
  have hdigits : thirtyPointers.count.all isDigit = true := by decide +kernel
  have hsize : max (Nat.ofDigits 10 (Number.digitsOf thirtyPointers.count).reverse) 1 *
      ofType (trim thirtyPointers.type) = 240 := by
    decide +kernel
  have h240 := hvalue (List.all_eq_true.mp hdigits) (by decide)
  rw [hsize] at h240
  rw [hfirst, h240] at hn
  rw [hlast, h240] at hn'
  exact ⟨hn, hn'⟩

end HeapAudit.Size
