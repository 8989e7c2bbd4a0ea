import HeapAudit.Proofs.Initializers

namespace HeapAudit
open Text

namespace Text

/-- Blanks at the ends make no difference to what is left by trimming. -/
theorem trim_blanks {lead trail : Chars} (hl : ∀ c ∈ lead, isBlank c = true)
    (ht : ∀ c ∈ trail, isBlank c = true) (cs : Chars) : trim (lead ++ cs ++ trail) = trim cs := by
  rw [trim, List.append_assoc, trimLeft_blanks hl]
  by_cases hin : Inked cs
  · rw [trimLeft_append hin, trimRight_blanks ht, trim]
  · have hblank := blank_of_not_inked hin
    have hnone : trimLeft trail = [] := List.dropWhile_eq_nil_iff.mpr ht
    rw [trimLeft_blanks hblank, hnone, trim, trimLeft, List.dropWhile_eq_nil_iff.mpr hblank]

theorem trim_trimLeft (cs : Chars) : trim (trimLeft cs) = trim cs := by
  unfold trim trimLeft
  rw [List.dropWhile_idempotent]

theorem trim_trimRight (cs : Chars) : trim (trimRight cs) = trim cs := by
  obtain ⟨gap, hg, hsplit⟩ := exists_blanks_after cs
  have hnone : ∀ c ∈ ([] : Chars), isBlank c = true := by simp
  have hblanks := trim_blanks hnone hg (trimRight cs)
  rw [List.nil_append, ← hsplit] at hblanks
  exact hblanks.symm

/-- Trimming stops at the first character from either end that is not a blank. -/
theorem trim_append_cons {c : Char} (hc : isBlank c = false) (before after : Chars) :
    trim (before ++ c :: after) = trimLeft before ++ c :: trimRight after := by
  have hleft : trimLeft (before ++ c :: after) = trimLeft before ++ c :: after := by
    by_cases hin : Inked before
    · exact trimLeft_append hin _
    · have hblank := blank_of_not_inked hin
      rw [trimLeft_blanks hblank, trimLeft_cons hc, trimLeft,
        List.dropWhile_eq_nil_iff.mpr hblank, List.nil_append]
  rw [trim, hleft, trimRight_append (inked_cons hc after), trimRight_cons hc]

end Text

namespace Statement

/-- Opened less closed parentheses. -/
def level (cs : Chars) : Int := (cs.count '(' : Int) - cs.count ')'

@[simp]
theorem level_nil : level [] = 0 := rfl

theorem level_append (cs ds : Chars) : level (cs ++ ds) = level cs + level ds := by
  simp only [level, List.count_append]
  omega

/-- The depth of the scan after a character, if it does not part the arguments. -/
theorem level_cons (depth : Int) (c : Char) (cs : Chars) :
    depth + level (c :: cs) =
      (if c = '(' then depth + 1 else if c = ')' then depth - 1 else depth) + level cs := by
  unfold level
  split
  · rename_i hc
    rw [hc, List.count_cons_self, List.count_cons_of_ne (by decide)]
    push_cast
    omega
  · rename_i ho
    rw [List.count_cons_of_ne ho]
    split
    · rename_i hc
      rw [hc, List.count_cons_self]
      push_cast
      omega
    · rename_i hc
      rw [List.count_cons_of_ne hc]

/-- The arguments of a text that is scanned from a depth on, with their blanks. -/
def parts (depth : Int) : Chars → List Chars
  | [] => [[]]
  | c :: cs =>
    if c = ',' ∧ depth = 0 then [] :: parts depth cs
    else
      (parts (if c = '(' then depth + 1 else if c = ')' then depth - 1 else depth) cs).modifyHead
        (c :: ·)

theorem parts_ne_nil (depth : Int) (cs : Chars) : parts depth cs ≠ [] := by
  induction cs generalizing depth with
  | nil => exact List.cons_ne_nil _ _
  | cons c cs ih =>
    unfold parts
    split
    · exact List.cons_ne_nil _ _
    · simpa using ih _

/-- The scan carries the argument it is in and the arguments that are done, both reversed. -/
theorem foldl_listing (s : Listing) (cs : Chars) :
    ((cs.foldl Listing.push s).current.reverse :: (cs.foldl Listing.push s).done).reverse =
      s.done.reverse ++ (parts s.depth cs).modifyHead (s.current.reverse ++ ·) := by
  induction cs generalizing s with
  | nil => simp [parts]
  | cons c cs ih =>
    rw [List.foldl_cons, ih, parts, Listing.push]
    split
    · obtain ⟨first, rest, hp⟩ := List.exists_cons_of_ne_nil (parts_ne_nil s.depth cs)
      simp [hp]
    · dsimp only
      rw [List.modifyHead_modifyHead]
      simp [Function.comp_def]

theorem argumentList_eq (cs : Chars) : argumentList cs = (parts 0 cs).map trim := by
  have h := foldl_listing {} cs
  obtain ⟨first, rest, hp⟩ := List.exists_cons_of_ne_nil (parts_ne_nil 0 cs)
  rw [argumentList, h]
  change (List.modifyHead _ (parts 0 cs)).map trim = _
  rw [hp]
  rfl

/-- A text is passed as a whole if its commas are all at other depths than zero. -/
theorem parts_append {cs : Chars} (depth : Int)
    (h : ∀ start, start ++ [','] <+: cs → depth + level start ≠ 0) (rest : Chars) :
    parts depth (cs ++ rest) = (parts (depth + level cs) rest).modifyHead (cs ++ ·) := by
  induction cs generalizing depth with
  | nil =>
    obtain ⟨first, more, hp⟩ := List.exists_cons_of_ne_nil (parts_ne_nil depth rest)
    simp [hp]
  | cons c cs ih =>
    have hhere : ¬ (c = ',' ∧ depth = 0) := by
      rintro ⟨rfl, hd⟩
      have hfirst := h [] (List.cons_prefix_cons.mpr ⟨rfl, List.nil_prefix⟩)
      simp [hd] at hfirst
    have hrest := ih (if c = '(' then depth + 1 else if c = ')' then depth - 1 else depth) (by
      intro start hs
      rw [← level_cons]
      exact h (c :: start) (List.cons_prefix_cons.mpr ⟨rfl, hs⟩))
    rw [List.cons_append, parts, if_neg hhere, hrest, List.modifyHead_modifyHead, ← level_cons]
    rfl

/-- No comma stands outside of parentheses. -/
def CommasInside (cs : Chars) : Prop :=
  ∀ start, start ++ [','] <+: cs → start.count ')' < start.count '('

namespace CommasInside

variable {cs : Chars}

theorem blank_cons {b : Char} (hb : isBlank b = true) :
    CommasInside (b :: cs) ↔ CommasInside cs := by
  have hne : ∀ c, isBlank c = false → b ≠ c := by
    rintro c hc rfl
    rw [hb] at hc
    cases hc
  have hcount : ∀ start : Chars, (b :: start).count ')' < (b :: start).count '(' ↔
      start.count ')' < start.count '(' := by
    intro start
    rw [List.count_cons_of_ne (hne ')' (by decide)), List.count_cons_of_ne (hne '(' (by decide))]
  constructor
  · intro h start hs
    exact (hcount start).mp (h (b :: start) (List.cons_prefix_cons.mpr ⟨rfl, hs⟩))
  · intro h start hs
    cases start with
    | nil => exact absurd (List.cons_prefix_cons.mp hs).1.symm (hne ',' (by decide))
    | cons c start =>
      obtain ⟨rfl, hrest⟩ := List.cons_prefix_cons.mp hs
      exact (hcount start).mpr (h start hrest)

theorem trimLeft (h : CommasInside cs) : CommasInside (trimLeft cs) := by
  induction cs with
  | nil => exact h
  | cons c cs ih =>
    unfold Text.trimLeft
    rw [List.dropWhile_cons]
    split
    · rename_i hc
      exact ih ((blank_cons hc).mp h)
    · exact h

theorem mono {ds : Chars} (h : CommasInside cs) (hp : ds <+: cs) : CommasInside ds :=
  fun start hs => h start (hs.trans hp)

theorem parts_append (h : CommasInside cs) (rest : Chars) :
    parts 0 (cs ++ rest) = (parts (level cs) rest).modifyHead (cs ++ ·) := by
  have hdepth : ∀ start, start ++ [','] <+: cs → 0 + level start ≠ 0 := by
    intro start hs
    have hlt := h start hs
    unfold level
    omega
  have hpass := Statement.parts_append 0 hdepth rest
  rwa [Int.zero_add] at hpass

theorem parts_self (h : CommasInside cs) : parts 0 cs = [cs] := by
  have hend := h.parts_append []
  simpa [parts] using hend

/-- A comma after matching parentheses parts what is before it from what follows. -/
theorem parts_comma (h : CommasInside cs) (hl : level cs = 0) (rest : Chars) :
    parts 0 (cs ++ ',' :: rest) = cs :: parts 0 rest := by
  simp [h.parts_append, hl, parts]

end CommasInside

theorem level_trimLeft (cs : Chars) : level (trimLeft cs) = level cs := by
  obtain ⟨gap, hg, hsplit⟩ := exists_blanks cs
  have hgap : level gap = 0 := by
    have hnone : ∀ c, isBlank c = false → gap.count c = 0 := by
      intro c hc
      refine List.count_eq_zero.mpr fun hm => ?_
      rw [hg c hm] at hc
      cases hc
    rw [level, hnone '(' (by decide), hnone ')' (by decide)]
    rfl
  conv_rhs => rw [hsplit, level_append, hgap, Int.zero_add]

/-- Two arguments with a comma between them, of which the parentheses of the first match. -/
theorem argumentList_pair {a b : Chars} (ha : CommasInside a) (hl : level a = 0)
    (hb : CommasInside b) : argumentList (trim (a ++ ", ".toList ++ b)) = [trim a, trim b] := by
  have hcomma : a ++ ", ".toList ++ b = a ++ ',' :: ' ' :: b := by simp
  have hsecond : CommasInside (trimRight (' ' :: b)) := by
    have hprefix : trimRight (' ' :: b) <+: ' ' :: b := by
      have hsuffix := trimLeft_suffix (' ' :: b).reverse
      rwa [← List.reverse_prefix, List.reverse_reverse] at hsuffix
    exact ((CommasInside.blank_cons (by decide)).mpr hb).mono hprefix
  have hspace : trim (' ' :: b) = trim b := by
    unfold trim trimLeft
    rw [List.dropWhile_cons_of_pos (by decide)]
  rw [hcomma, trim_append_cons (by decide), argumentList_eq,
    ha.trimLeft.parts_comma (by rw [level_trimLeft, hl]), hsecond.parts_self]
  simp [trim_trimLeft, trim_trimRight, hspace]

end Statement

end HeapAudit
