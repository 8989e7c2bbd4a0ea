import HeapAudit.Comment
import HeapAudit.Proofs.Lines

namespace HeapAudit

theorem Text.joinWith_nil_cons {parts : List Text.Chars} (h : parts ≠ []) (sep : Text.Chars) :
    Text.joinWith sep ([] :: parts) = sep ++ Text.joinWith sep parts := by
  obtain ⟨part, rest, rfl⟩ := List.exists_cons_of_ne_nil h
  exact List.intercalate_cons_cons ..

theorem Text.joinWith_modifyHead {parts : List Text.Chars} (h : parts ≠ []) (sep : Text.Chars)
    (c : Char) :
    Text.joinWith sep (parts.modifyHead (c :: ·)) = c :: Text.joinWith sep parts := by
  obtain ⟨part, rest, rfl⟩ := List.exists_cons_of_ne_nil h
  cases rest with
  | nil => simp [Text.joinWith, List.intercalate]
  | cons next rest =>
    unfold Text.joinWith
    rw [List.modifyHead_cons, List.intercalate_cons_cons, List.intercalate_cons_cons]
    rfl

namespace Comment
open Text

section LineComments

theorem beforeSlashes_eq (done cs : Chars) :
    beforeSlashes done cs = done.reverse ++ beforeSlashes [] cs := by
  induction cs generalizing done with
  | nil => simp [beforeSlashes]
  | cons c cs ih =>
    by_cases hs : c = '/' ∧ cs.head? = some '/'
    · obtain ⟨rfl, hhead⟩ := hs
      obtain ⟨rest, rfl⟩ := List.head?_eq_some_iff.mp hhead
      simp [beforeSlashes]
    · have hcons : ∀ done, beforeSlashes done (c :: cs) = beforeSlashes (c :: done) cs := by
        intro done
        rw [beforeSlashes]
        rintro rest rfl rfl
        exact hs ⟨rfl, rfl⟩
      rw [hcons, hcons, ih, ih [c]]
      simp

theorem beforeSlashes_cons {c : Char} {cs : Chars} (h : ¬(c = '/' ∧ cs.head? = some '/')) :
    beforeSlashes [] (c :: cs) = c :: beforeSlashes [] cs := by
  rw [beforeSlashes, beforeSlashes_eq]
  · rfl
  · rintro rest rfl rfl
    exact h ⟨rfl, rfl⟩

/-- The rest of a line is dropped up to the newline. -/
theorem lines_dropWhile (cs : Chars) :
    lines (cs.dropWhile (· ≠ '\n')) = [] :: (lines cs).tail := by
  induction cs with
  | nil => rfl
  | cons c cs ih =>
    rw [lines_cons]
    by_cases hc : c = '\n'
    · rw [List.dropWhile_cons_of_neg (by simp [hc]), lines_cons, if_pos hc]
      rfl
    · rw [List.dropWhile_cons_of_pos (by simp [hc]), ih, if_neg hc, List.tail_modifyHead]

theorem lines_head {c : Char} {cs first : Chars} {rest : List Chars}
    (hl : lines cs = first :: rest) (hf : first.head? = some c) : cs.head? = some c := by
  cases cs with
  | nil =>
    obtain ⟨rfl, -⟩ := List.cons.inj (show [[]] = first :: rest from hl)
    cases hf
  | cons d cs =>
    obtain ⟨part, parts, hp⟩ := List.exists_cons_of_ne_nil (lines_ne_nil cs)
    rw [lines_cons, hp] at hl
    split at hl
    · obtain ⟨rfl, -⟩ := List.cons.inj hl
      cases hf
    · obtain ⟨rfl, -⟩ := List.cons.inj hl
      exact hf

theorem dropLineComments_nil : dropLineComments [] = [] := rfl

theorem dropLineComments_slashes (cs : Chars) :
    dropLineComments ('/' :: '/' :: cs) = dropLineComments (cs.dropWhile (· ≠ '\n')) := by
  obtain ⟨first, rest, hl⟩ := List.exists_cons_of_ne_nil (lines_ne_nil cs)
  unfold dropLineComments
  rw [lines_dropWhile, lines_cons, lines_cons, hl]
  rfl

theorem dropLineComments_cons {c : Char} {cs : Chars} (h : ¬(c = '/' ∧ cs.head? = some '/')) :
    dropLineComments (c :: cs) = c :: dropLineComments cs := by
  obtain ⟨first, rest, hl⟩ := List.exists_cons_of_ne_nil (lines_ne_nil cs)
  unfold dropLineComments
  rw [lines_cons, hl]
  by_cases hc : c = '\n'
  · rw [if_pos hc, List.map_cons, hc]
    exact joinWith_nil_cons (by simp) _
  · have hhead : ¬(c = '/' ∧ first.head? = some '/') := by
      rintro ⟨rfl, hf⟩
      exact h ⟨rfl, lines_head hl hf⟩
    rw [if_neg hc, List.modifyHead_cons, List.map_cons, beforeSlashes_cons hhead]
    exact joinWith_modifyHead (List.cons_ne_nil _ (rest.map (beforeSlashes []))) _ c

/-- A text is read up to its end, over line comments and characters outside them. -/
theorem slashes_induction {motive : Chars → Prop} (nil : motive [])
    (slashes : ∀ cs, motive (cs.dropWhile (· ≠ '\n')) → motive ('/' :: '/' :: cs))
    (cons : ∀ c cs, ¬(c = '/' ∧ cs.head? = some '/') → motive cs → motive (c :: cs))
    (cs : Chars) : motive cs := by
  induction hn : cs.length using Nat.strongRecOn generalizing cs with
  | ind n ih =>
    cases cs with
    | nil => exact nil
    | cons c cs =>
      by_cases hs : c = '/' ∧ cs.head? = some '/'
      · obtain ⟨rfl, hhead⟩ := hs
        obtain ⟨rest, rfl⟩ := List.head?_eq_some_iff.mp hhead
        have hle := (List.dropWhile_suffix (fun c => decide (c ≠ '\n')) (l := rest)).length_le
        refine slashes rest (ih _ ?_ _ rfl)
        simp only [List.length_cons] at hn
        omega
      · refine cons c cs hs (ih _ ?_ _ rfl)
        simp only [List.length_cons] at hn
        omega

/-- What comes first is as it was, unless a line comment did. -/
theorem head_of_dropLineComments {c : Char} {cs : Chars} (hc : c ≠ '\n')
    (h : (dropLineComments cs).head? = some c) : cs.head? = some c := by
  induction cs using slashes_induction with
  | nil => exact h
  | slashes cs ih =>
    rw [dropLineComments_slashes] at h
    have hhead := ih h
    have hnot := List.head?_dropWhile_not (fun c => decide (c ≠ '\n')) cs
    simp only [hhead] at hnot
    simp [hc] at hnot
  | cons d cs hs ih =>
    rw [dropLineComments_cons hs] at h
    exact h

theorem newlines_dropLineComments (cs : Chars) :
    (dropLineComments cs).filter (· = '\n') = cs.filter (· = '\n') := by
  have hdrop : ∀ cs : Chars,
      (cs.dropWhile (· ≠ '\n')).filter (· = '\n') = cs.filter (· = '\n') := by
    intro cs
    induction cs with
    | nil => rfl
    | cons c cs ih =>
      by_cases hc : c = '\n'
      · rw [List.dropWhile_cons_of_neg (by simp [hc])]
      · rw [List.dropWhile_cons_of_pos (by simp [hc]), ih, List.filter_cons_of_neg (by simp [hc])]
  induction cs using slashes_induction with
  | nil => rfl
  | slashes cs ih =>
    rw [dropLineComments_slashes, ih, hdrop]
    rfl
  | cons c cs hs ih =>
    rw [dropLineComments_cons hs, List.filter_cons, List.filter_cons, ih]

end LineComments

section Blocks

/-- After the opening of a block: the text before the first `*/`, and the text after it. -/
def blockEnd? : Chars → Option (Chars × Chars)
  | '*' :: '/' :: after => some ([], after)
  | c :: cs => (blockEnd? cs).map fun (body, after) => (c :: body, after)
  | [] => none

theorem blockEnd?_cons {c : Char} {cs : Chars} (h : ¬(c = '*' ∧ cs.head? = some '/')) :
    blockEnd? (c :: cs) = (blockEnd? cs).map fun (body, after) => (c :: body, after) := by
  rw [blockEnd?]
  rintro rest rfl rfl
  exact h ⟨rfl, rfl⟩

theorem blockEnd?_none_cons {c : Char} {cs : Chars} :
    blockEnd? (c :: cs) = none ↔ ¬(c = '*' ∧ cs.head? = some '/') ∧ blockEnd? cs = none := by
  by_cases h : c = '*' ∧ cs.head? = some '/'
  · obtain ⟨rfl, hhead⟩ := h
    obtain ⟨rest, rfl⟩ := List.head?_eq_some_iff.mp hhead
    simp [blockEnd?]
  · rw [blockEnd?_cons h, Option.map_eq_none_iff]
    exact ⟨fun hn => ⟨h, hn⟩, fun hn => hn.2⟩

theorem blockEnd?_some {cs body after : Chars} (h : blockEnd? cs = some (body, after)) :
    cs = body ++ '*' :: '/' :: after ∧ blockEnd? body = none := by
  induction cs generalizing body with
  | nil => cases h
  | cons c cs ih =>
    by_cases hc : c = '*' ∧ cs.head? = some '/'
    · obtain ⟨rfl, hhead⟩ := hc
      obtain ⟨rest, rfl⟩ := List.head?_eq_some_iff.mp hhead
      cases h
      exact ⟨rfl, rfl⟩
    · rw [blockEnd?_cons hc, Option.map_eq_some_iff] at h
      obtain ⟨⟨inner, rest⟩, hin, he⟩ := h
      cases he
      obtain ⟨rfl, hn⟩ := ih hin
      refine ⟨rfl, blockEnd?_none_cons.mpr ⟨?_, hn⟩⟩
      rintro ⟨rfl, hhead⟩
      exact hc ⟨rfl, by rw [List.head?_append, hhead]; rfl⟩

/-- Where no end comes before it, an end is the first one. -/
theorem blockEnd?_append {body : Chars} (h : blockEnd? body = none) (after : Chars) :
    blockEnd? (body ++ '*' :: '/' :: after) = some (body, after) := by
  induction body with
  | nil => rfl
  | cons c body ih =>
    obtain ⟨hc, hn⟩ := blockEnd?_none_cons.mp h
    rw [List.cons_append, blockEnd?_cons, ih hn, Option.map_some]
    rintro ⟨rfl, hhead⟩
    cases body with
    | nil => cases hhead
    | cons d body => exact hc ⟨rfl, hhead⟩

theorem closeBlock?_eq (newlines cs : Chars) :
    closeBlock? newlines cs = (blockEnd? cs).map fun (body, after) =>
      ((body.filter (· = '\n')).reverse ++ newlines, after) := by
  induction cs generalizing newlines with
  | nil => rfl
  | cons c cs ih =>
    by_cases h : c = '*' ∧ cs.head? = some '/'
    · obtain ⟨rfl, hhead⟩ := h
      obtain ⟨rest, rfl⟩ := List.head?_eq_some_iff.mp hhead
      rfl
    · have hno : ∀ rest, c = '*' → cs = '/' :: rest → False := by
        rintro rest rfl rfl
        exact h ⟨rfl, rfl⟩
      rw [blockEnd?_cons h, Option.map_map]
      by_cases hc : c = '\n'
      · subst hc
        rw [closeBlock?, ih]
        simp [Function.comp_def]
      · rw [closeBlock?, ih]
        · simp [Function.comp_def, hc]
        · exact hno
        · exact hc

theorem blockEnd?_length {cs body after : Chars} (h : blockEnd? cs = some (body, after)) :
    after.length < cs.length := by
  rw [(blockEnd?_some h).1]
  simp only [List.length_append, List.length_cons]
  omega

/-- A text is read up to its end, over blocks and characters outside them; a block without an end
is the last thing in it. -/
theorem blocks_induction {motive : Chars → Prop} (nil : motive [])
    (block : ∀ rest body after, blockEnd? rest = some (body, after) → motive after →
      motive ('/' :: '*' :: rest))
    (unclosed : ∀ rest, blockEnd? rest = none → motive ('/' :: '*' :: rest))
    (cons : ∀ c cs, ¬(c = '/' ∧ cs.head? = some '*') → motive cs → motive (c :: cs))
    (cs : Chars) : motive cs := by
  induction hn : cs.length using Nat.strongRecOn generalizing cs with
  | ind n ih =>
    cases cs with
    | nil => exact nil
    | cons c cs =>
      simp only [List.length_cons] at hn
      by_cases hs : c = '/' ∧ cs.head? = some '*'
      · obtain ⟨rfl, hhead⟩ := hs
        obtain ⟨rest, rfl⟩ := List.head?_eq_some_iff.mp hhead
        cases he : blockEnd? rest with
        | none => exact unclosed rest he
        | some found =>
          have hlt := blockEnd?_length he
          simp only [List.length_cons] at hn
          exact block rest found.1 found.2 he (ih _ (by omega) _ rfl)
      · exact cons c cs hs (ih _ (by omega) _ rfl)

theorem dropBlocksFrom_block {rest body after : Chars} (done : Chars)
    (h : blockEnd? rest = some (body, after)) :
    dropBlocksFrom done ('/' :: '*' :: rest) =
      dropBlocksFrom ((body.filter (· = '\n')).reverse ++ done) after := by
  have hclose := closeBlock?_eq done rest
  rw [h, Option.map_some] at hclose
  rw [dropBlocksFrom]
  split
  · rename_i kept tail hk
    rw [hclose] at hk
    cases hk
    rfl
  · rename_i hk
    rw [hclose] at hk
    cases hk

theorem dropBlocksFrom_unclosed {rest : Chars} (done : Chars) (h : blockEnd? rest = none) :
    dropBlocksFrom done ('/' :: '*' :: rest) = done.reverse ++ '/' :: '*' :: rest := by
  have hclose := closeBlock?_eq done rest
  rw [h, Option.map_none] at hclose
  rw [dropBlocksFrom]
  split
  · rename_i kept tail hk
    rw [hclose] at hk
    cases hk
  · rfl

theorem dropBlocksFrom_cons {c : Char} {cs : Chars} (done : Chars)
    (h : ¬(c = '/' ∧ cs.head? = some '*')) :
    dropBlocksFrom done (c :: cs) = dropBlocksFrom (c :: done) cs := by
  rw [dropBlocksFrom]
  rintro rest rfl rfl
  exact h ⟨rfl, rfl⟩

theorem dropBlocksFrom_eq (done cs : Chars) :
    dropBlocksFrom done cs = done.reverse ++ dropBlockComments cs := by
  unfold dropBlockComments
  induction cs using blocks_induction generalizing done with
  | nil => simp [dropBlocksFrom]
  | block rest body after h ih =>
    rw [dropBlocksFrom_block done h, dropBlocksFrom_block [] h, ih, ih (_ ++ [])]
    simp
  | unclosed rest h =>
    rw [dropBlocksFrom_unclosed done h, dropBlocksFrom_unclosed [] h]
    rfl
  | cons c cs h ih =>
    rw [dropBlocksFrom_cons done h, dropBlocksFrom_cons [] h, ih, ih [c]]
    simp

theorem dropBlockComments_nil : dropBlockComments [] = [] := by
  rw [dropBlockComments, dropBlocksFrom]
  rfl

theorem dropBlockComments_block {rest body after : Chars}
    (h : blockEnd? rest = some (body, after)) :
    dropBlockComments ('/' :: '*' :: rest) =
      body.filter (· = '\n') ++ dropBlockComments after := by
  rw [dropBlockComments, dropBlocksFrom_block [] h, dropBlocksFrom_eq, List.append_nil,
    List.reverse_reverse]

theorem dropBlockComments_unclosed {rest : Chars} (h : blockEnd? rest = none) :
    dropBlockComments ('/' :: '*' :: rest) = '/' :: '*' :: rest :=
  dropBlocksFrom_unclosed [] h

theorem dropBlockComments_cons {c : Char} {cs : Chars} (h : ¬(c = '/' ∧ cs.head? = some '*')) :
    dropBlockComments (c :: cs) = c :: dropBlockComments cs := by
  rw [dropBlockComments, dropBlocksFrom_cons [] h, dropBlocksFrom_eq]
  rfl

/-- Without an end of a block there are no blocks. -/
theorem dropBlockComments_of_none {cs : Chars} (h : blockEnd? cs = none) :
    dropBlockComments cs = cs := by
  induction cs using blocks_induction with
  | nil => exact dropBlockComments_nil
  | block rest body after he ih =>
    have hrest := (blockEnd?_none_cons.mp (blockEnd?_none_cons.mp h).2).2
    rw [he] at hrest
    cases hrest
  | unclosed rest he => exact dropBlockComments_unclosed he
  | cons c cs hc ih =>
    rw [dropBlockComments_cons hc, ih (blockEnd?_none_cons.mp h).2]

end Blocks

end Comment

end HeapAudit
