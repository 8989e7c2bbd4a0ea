import HeapAudit.Text.Basic
import Mathlib.Data.List.DropRight
import Mathlib.Data.List.Forall2

namespace HeapAudit.Text

/-- There is always a line, if only an empty one. -/
theorem lines_ne_nil (cs : Chars) : lines cs ≠ [] := by
  cases cs with
  | nil => exact List.cons_ne_nil _ _
  | cons c cs =>
    unfold lines splitAt
    rw [List.foldr_cons]
    split
    · exact List.cons_ne_nil _ _
    · split <;> exact List.cons_ne_nil _ _

theorem lines_cons (c : Char) (cs : Chars) :
    lines (c :: cs) =
      if c = '\n' then [] :: lines cs else (lines cs).modifyHead (c :: ·) := by
  obtain ⟨part, rest, hl⟩ := List.exists_cons_of_ne_nil (lines_ne_nil cs)
  rw [hl]
  unfold lines splitAt at hl ⊢
  rw [List.foldr_cons, hl, List.modifyHead_cons]

/-- The last line of one part and the first line of the next make one line. -/
theorem lines_append {s t u v : Chars} {before after : List Chars} (hs : lines s = before ++ [u])
    (ht : lines t = v :: after) : lines (s ++ t) = before ++ (u ++ v) :: after := by
  induction s generalizing before u with
  | nil =>
    obtain ⟨rfl, rfl⟩ : before = [] ∧ u = [] := by
      have hn : [[]] = before ++ [u] := hs
      cases before with
      | nil => exact ⟨rfl, by simpa using hn.symm⟩
      | cons _ _ => simp at hn
    exact ht
  | cons c s ih =>
    rw [lines_cons] at hs
    rw [List.cons_append, lines_cons]
    by_cases hc : c = '\n'
    · rw [if_pos hc] at hs ⊢
      cases before with
      | nil => exact absurd (List.cons.inj hs).2 (lines_ne_nil s)
      | cons first before =>
        obtain ⟨rfl, hrest⟩ := List.cons.inj hs
        rw [ih hrest]
        rfl
    · rw [if_neg hc] at hs ⊢
      obtain ⟨first, rest, hl⟩ := List.exists_cons_of_ne_nil (lines_ne_nil s)
      rw [hl, List.modifyHead_cons] at hs
      cases before with
      | nil =>
        obtain ⟨rfl, rfl⟩ := List.cons.inj hs
        rw [ih (show lines s = [] ++ [first] from hl)]
        rfl
      | cons head before =>
        obtain ⟨rfl, rfl⟩ := List.cons.inj hs
        rw [ih (show lines s = (first :: before) ++ [_] from hl)]
        rfl

theorem lines_newline (s t : Chars) : lines (s ++ '\n' :: t) = lines s ++ lines t := by
  obtain ⟨above, last, hs⟩ : ∃ above last, lines s = above ++ [last] :=
    ⟨_, _, (List.dropLast_append_getLast (lines_ne_nil s)).symm⟩
  have ht : lines ('\n' :: t) = [] :: lines t := by
    rw [lines_cons, if_pos rfl]
  rw [lines_append hs ht, hs, List.append_nil, List.append_assoc, List.singleton_append]

theorem lines_eq_nil {cs : Chars} (h : lines cs = [[]]) : cs = [] := by
  cases cs with
  | nil => rfl
  | cons c cs =>
    obtain ⟨first, rest, hl⟩ := List.exists_cons_of_ne_nil (lines_ne_nil cs)
    rw [lines_cons, hl] at h
    split at h
    · cases (List.cons.inj h).2
    · cases (List.cons.inj h).1

/-- Two lists of lines side by side, with their first lines changed. -/
theorem forall₂_modifyHead {R : Chars → Chars → Prop} {f g : Chars → Chars}
    (hfg : ∀ line line', R line line' → R (f line) (g line')) {ls ls' : List Chars}
    (h : List.Forall₂ R ls ls') : List.Forall₂ R (ls.modifyHead f) (ls'.modifyHead g) := by
  cases h with
  | nil => exact .nil
  | cons hline hrest => exact .cons (hfg _ _ hline) hrest

/-- Not a blank text. -/
def Inked (cs : Chars) : Prop := ∃ c ∈ cs, isBlank c = false

theorem blank_of_not_inked {cs : Chars} (h : ¬ Inked cs) : ∀ c ∈ cs, isBlank c = true := by
  intro c hc
  by_contra hb
  exact h ⟨c, hc, by simpa using hb⟩

theorem trimLeft_ne_nil {cs : Chars} (h : Inked cs) : trimLeft cs ≠ [] := by
  obtain ⟨c, hc, hb⟩ := h
  intro hn
  have hall := List.dropWhile_eq_nil_iff.mp hn c hc
  rw [hb] at hall
  cases hall

theorem trimLeft_append {cs : Chars} (h : Inked cs) (rest : Chars) :
    trimLeft (cs ++ rest) = trimLeft cs ++ rest := by
  have hn := trimLeft_ne_nil h
  unfold trimLeft at hn ⊢
  rw [List.dropWhile_append, if_neg (by simpa using hn)]

theorem trimRight_append {cs : Chars} (h : Inked cs) (rest : Chars) :
    trimRight (rest ++ cs) = rest ++ trimRight cs := by
  have hr : Inked cs.reverse := by
    obtain ⟨c, hc, hb⟩ := h
    exact ⟨c, List.mem_reverse.mpr hc, hb⟩
  have hl := trimLeft_append hr rest.reverse
  unfold trimLeft at hl
  unfold trimRight
  rw [List.reverse_append, hl, List.reverse_append, List.reverse_reverse]

theorem trimLeft_cons {c : Char} (hc : isBlank c = false) (cs : Chars) :
    trimLeft (c :: cs) = c :: cs :=
  List.dropWhile_cons_of_neg (by simp [hc])

theorem trimRight_concat {c : Char} (hc : isBlank c = false) (cs : Chars) :
    trimRight (cs ++ [c]) = cs ++ [c] := by
  unfold trimRight
  rw [List.reverse_append, List.reverse_singleton, List.singleton_append,
    List.dropWhile_cons_of_neg (by simp [hc]), ← List.singleton_append, List.reverse_append,
    List.reverse_reverse, List.reverse_singleton]

theorem trimLeft_concat {c : Char} (hc : isBlank c = false) (cs : Chars) :
    trimLeft (cs ++ [c]) = trimLeft cs ++ [c] := by
  unfold trimLeft
  rw [List.dropWhile_append]
  split
  · rename_i he
    rw [List.isEmpty_iff.mp he, List.dropWhile_cons_of_neg (by simp [hc])]
    rfl
  · rfl

theorem trimRight_cons {c : Char} (hc : isBlank c = false) (cs : Chars) :
    trimRight (c :: cs) = c :: trimRight cs := by
  have h := trimLeft_concat hc cs.reverse
  unfold trimLeft at h
  unfold trimRight
  rw [List.reverse_cons, h, List.reverse_append]
  rfl

theorem trim_concat {c : Char} (hc : isBlank c = false) {cs : Chars} (hl : trimLeft cs = cs) :
    trim (cs ++ [c]) = cs ++ [c] := by
  rw [trim, trimLeft_concat hc, hl, trimRight_concat hc]

theorem inked_cons {c : Char} (hc : isBlank c = false) (cs : Chars) : Inked (c :: cs) :=
  ⟨c, List.mem_cons_self, hc⟩

theorem inked_concat {c : Char} (hc : isBlank c = false) (cs : Chars) : Inked (cs ++ [c]) :=
  ⟨c, by simp, hc⟩

/-- Trimming takes blanks only. -/
theorem mem_trim {c : Char} (hc : isBlank c = false) {cs : Chars} (h : c ∈ cs) : c ∈ trim cs := by
  have hleft : ∀ {ds : Chars}, c ∈ ds → c ∈ ds.dropWhile isBlank := by
    intro ds hd
    rw [← List.takeWhile_append_dropWhile (p := isBlank) (l := ds)] at hd
    rcases List.mem_append.mp hd with hd | hd
    · have hb := List.mem_takeWhile_imp hd
      rw [hc] at hb
      cases hb
    · exact hd
  exact List.mem_reverse.mpr (hleft (List.mem_reverse.mpr (hleft h)))

/-- What is left after trimming does not start with a blank. -/
theorem trimLeft_head {c : Char} {cs rest : Chars} (h : trimLeft cs = c :: rest) :
    isBlank c = false := by
  have hhead := List.head?_dropWhile_not isBlank cs
  rw [show cs.dropWhile isBlank = c :: rest from h] at hhead
  exact hhead

theorem trim_trim (cs : Chars) : trim (trim cs) = trim cs := by
  have hright : ∀ ds, trimRight (trimRight ds) = trimRight ds := by
    intro ds
    unfold trimRight
    rw [List.reverse_reverse, List.dropWhile_idempotent]
  have hleft : trimLeft (trim cs) = trim cs := by
    unfold trim
    cases hc : trimLeft cs with
    | nil => rfl
    | cons c rest => rw [trimRight_cons (trimLeft_head hc), trimLeft_cons (trimLeft_head hc)]
  rw [trim, hleft]
  exact hright _

theorem trim_sublist (cs : Chars) : (trim cs).Sublist cs := by
  have hright : ∀ ds : Chars, (trimRight ds).Sublist ds := by
    intro ds
    have hleft := (List.dropWhile_sublist isBlank (l := ds.reverse)).reverse
    rwa [List.reverse_reverse] at hleft
  exact (hright _).trans (List.dropWhile_sublist _)

theorem trimRight_space (cs : Chars) : trimRight (cs ++ [' ']) = trimRight cs := by
  unfold trimRight
  rw [List.reverse_append, List.reverse_singleton, List.singleton_append,
    List.dropWhile_cons_of_pos (by decide)]

theorem trimLeft_space (cs : Chars) :
    trimLeft (cs ++ [' ']) = if trimLeft cs = [] then [] else trimLeft cs ++ [' '] := by
  unfold trimLeft
  rw [List.dropWhile_append]
  simp only [List.isEmpty_iff]
  rfl

theorem trim_space (cs : Chars) : trim (cs ++ [' ']) = trim cs := by
  unfold trim
  rw [trimLeft_space]
  split
  · rename_i hn
    rw [hn]
  · exact trimRight_space _

theorem indent_space {cs : Chars} (h : trim cs ≠ []) : indent (cs ++ [' ']) = indent cs := by
  unfold indent
  rw [List.takeWhile_append, if_neg]
  intro hl
  have hall : cs.takeWhile isBlank = cs := (List.takeWhile_prefix isBlank).eq_of_length hl
  have hnil : trimLeft cs = [] :=
    List.dropWhile_eq_nil_iff.mpr (List.takeWhile_eq_self_iff.mp hall)
  exact h (by rw [trim, hnil]; rfl)

end HeapAudit.Text
