import HeapAudit.Proofs.Comments
import Mathlib.Data.List.Infix

namespace HeapAudit.Comment
open Text

/-- What a scan from left to right meets. -/
inductive Piece where
  | char (c : Char)
  /-- From `//` up to the end of its line. -/
  | line
  /-- From the opening of a block through its first end: the text between them, and the text that
  comes after. -/
  | block (body after : Chars)
  deriving DecidableEq, Repr

def pieces (cs : Chars) : List Piece :=
  match cs with
  | '/' :: '/' :: rest => .line :: pieces (rest.dropWhile (· ≠ '\n'))
  | '/' :: '*' :: rest =>
    match _h : blockEnd? rest with
    | some (body, after) => .block body after :: pieces after
    | none => .char '/' :: pieces ('*' :: rest)
  | c :: rest => .char c :: pieces rest
  | [] => []
termination_by cs.length
decreasing_by
  · have := (List.dropWhile_suffix (fun c => decide (c ≠ '\n')) (l := rest)).length_le
    simp only [List.length_cons]; omega
  · have := blockEnd?_length _h; simp only [List.length_cons]; omega
  · simp only [List.length_cons]; omega
  · simp only [List.length_cons]; omega

/-- What is left of a piece: of a comment, only the newlines in it. -/
def Piece.kept : Piece → Chars
  | .char c => [c]
  | .line => []
  | .block body _ => body.filter (· = '\n')

/-- One scan from left to right for both kinds of comments: the one that opens first counts. -/
def scanOnce (cs : Chars) : Chars := (pieces cs).flatMap Piece.kept

/-- No `//` hides the end of a block: each one in the block has the end of its line there too, and
the last slash of the block is not the first of two. -/
def Piece.Shown : Piece → Prop
  | .block body after =>
    (∀ tail ∈ body.tails, ['/', '/'] <+: tail → '\n' ∈ tail) ∧ after.head? ≠ some '/'
  | _ => True

instance (p : Piece) : Decidable p.Shown :=
  match p with
  | .char _ | .line => .isTrue trivial
  | .block _ _ => inferInstanceAs (Decidable (_ ∧ _))

theorem blockEnd?_suffix {cs tail : Chars} (h : blockEnd? cs = none) (ht : tail <:+ cs) :
    blockEnd? tail = none := by
  obtain ⟨before, rfl⟩ := ht
  induction before with
  | nil => exact h
  | cons c before ih => exact ih (blockEnd?_none_cons.mp h).2

/-- Line comments take no part of a block's end with them unless there is one. -/
theorem blockEnd?_dropLineComments {cs : Chars} (h : blockEnd? cs = none) :
    blockEnd? (dropLineComments cs) = none := by
  induction cs using slashes_induction with
  | nil => rfl
  | slashes cs ih =>
    rw [dropLineComments_slashes]
    apply ih
    have hcs := (blockEnd?_none_cons.mp (blockEnd?_none_cons.mp h).2).2
    exact blockEnd?_suffix hcs (List.dropWhile_suffix _)
  | cons c cs hc ih =>
    obtain ⟨hno, hcs⟩ := blockEnd?_none_cons.mp h
    rw [dropLineComments_cons hc]
    refine blockEnd?_none_cons.mpr ⟨?_, ih hcs⟩
    rintro ⟨rfl, hhead⟩
    exact hno ⟨rfl, head_of_dropLineComments (by decide) hhead⟩

/-- A block whose end is not hidden keeps it. -/
theorem dropLineComments_block {body after : Chars} (h : (Piece.block body after).Shown) :
    dropLineComments (body ++ '*' :: '/' :: after) =
      dropLineComments body ++ '*' :: '/' :: dropLineComments after := by
  obtain ⟨hbody, hafter⟩ := h
  induction body using slashes_induction with
  | nil =>
    rw [List.nil_append, dropLineComments_cons (by simp), dropLineComments_cons (by simp [hafter])]
    rfl
  | slashes cs ih =>
    have hnl : '\n' ∈ cs := by
      have hin := hbody ('/' :: '/' :: cs) (by simp) ⟨cs, rfl⟩
      simpa using hin
    have hdrop : (cs ++ '*' :: '/' :: after).dropWhile (· ≠ '\n') =
        cs.dropWhile (· ≠ '\n') ++ '*' :: '/' :: after := by
      rw [List.dropWhile_append, if_neg]
      intro he
      have hall := List.dropWhile_eq_nil_iff.mp (List.isEmpty_iff.mp he) '\n' hnl
      simp at hall
    rw [List.cons_append, List.cons_append, dropLineComments_slashes, dropLineComments_slashes,
      hdrop]
    apply ih
    intro tail ht
    apply hbody
    rw [List.mem_tails] at ht ⊢
    exact (ht.trans (List.dropWhile_suffix _)).trans ⟨['/', '/'], rfl⟩
  | cons c cs hc ih =>
    have hmore : ¬(c = '/' ∧ (cs ++ '*' :: '/' :: after).head? = some '/') := by
      cases cs with
      | nil => simp
      | cons d cs => exact hc
    rw [List.cons_append, dropLineComments_cons hmore, dropLineComments_cons hc, ih,
      List.cons_append]
    intro tail ht
    apply hbody
    rw [List.mem_tails] at ht ⊢
    exact ht.trans (List.suffix_cons ..)

/-- Where no `//` hides an end, the order of removal does not matter. -/
theorem stripChars_eq_scanOnce {cs : Chars} (h : ∀ p ∈ pieces cs, p.Shown) :
    stripChars cs = scanOnce cs := by
  unfold stripChars scanOnce
  fun_induction pieces cs with
  | case1 rest ih =>
    rw [dropLineComments_slashes, ih (List.forall_mem_cons.mp h).2]
    rfl
  | case2 rest body after he ih =>
    obtain ⟨hshown, hrest⟩ := List.forall_mem_cons.mp h
    obtain ⟨hsplit, hnone⟩ := blockEnd?_some he
    have hend := blockEnd?_append (blockEnd?_dropLineComments hnone) (dropLineComments after)
    rw [← dropLineComments_block hshown, ← hsplit] at hend
    rw [dropLineComments_cons (by simp), dropLineComments_cons (by simp),
      dropBlockComments_block hend, newlines_dropLineComments, ih hrest]
    rfl
  | case3 rest he ih =>
    -- Without an end here there is none later, so both sides keep all other openings too.
    have hnone := blockEnd?_dropLineComments he
    have hrest := ih (List.forall_mem_cons.mp h).2
    rw [dropLineComments_cons (by simp), dropBlockComments_cons (by simp),
      dropBlockComments_of_none hnone] at hrest
    rw [dropLineComments_cons (by simp), dropLineComments_cons (by simp),
      dropBlockComments_unclosed hnone, hrest]
    rfl
  | case4 c rest hs hb ih =>
    have hline : ¬(c = '/' ∧ rest.head? = some '/') := by
      rintro ⟨rfl, hhead⟩
      obtain ⟨more, rfl⟩ := List.head?_eq_some_iff.mp hhead
      exact hs more rfl rfl
    have hblock : ¬(c = '/' ∧ (dropLineComments rest).head? = some '*') := by
      rintro ⟨rfl, hhead⟩
      obtain ⟨more, rfl⟩ := List.head?_eq_some_iff.mp (head_of_dropLineComments (by decide) hhead)
      exact hb more rfl rfl
    rw [dropLineComments_cons hline, dropBlockComments_cons hblock,
      ih (List.forall_mem_cons.mp h).2]
    rfl
  | case5 => rw [dropLineComments_nil, dropBlockComments_nil]; rfl

theorem no_slashes_dropLineComments (cs : Chars) : ¬['/', '/'] <:+: dropLineComments cs := by
  induction cs using slashes_induction with
  | nil => decide
  | slashes cs ih => rwa [dropLineComments_slashes]
  | cons c cs hc ih =>
    rw [dropLineComments_cons hc, List.infix_cons_iff]
    rintro (⟨rest, he⟩ | hin)
    · obtain ⟨rfl, htail⟩ := List.cons.inj he
      refine hc ⟨rfl, head_of_dropLineComments (by decide) ?_⟩
      rw [← htail]
      rfl
    · exact ih hin

/-- Without line comments blocks are all there is to remove. -/
theorem dropBlockComments_eq_scanOnce {cs : Chars} (h : ¬['/', '/'] <:+: cs) :
    dropBlockComments cs = scanOnce cs := by
  unfold scanOnce
  fun_induction pieces cs with
  | case1 rest ih => exact absurd ⟨[], rest, rfl⟩ h
  | case2 rest body after he ih =>
    have hafter : after <:+ '/' :: '*' :: rest := by
      rw [(blockEnd?_some he).1]
      exact ⟨'/' :: '*' :: body ++ ['*', '/'], by simp⟩
    rw [dropBlockComments_block he, ih fun hin => h (hin.trans hafter.isInfix)]
    rfl
  | case3 rest he ih =>
    have hrest := ih fun hin => h (hin.trans (List.suffix_cons ..).isInfix)
    rw [dropBlockComments_cons (by simp), dropBlockComments_of_none he] at hrest
    rw [dropBlockComments_unclosed he]
    exact congrArg ('/' :: ·) hrest
  | case4 c rest hs hb ih =>
    have hblock : ¬(c = '/' ∧ rest.head? = some '*') := by
      rintro ⟨rfl, hhead⟩
      obtain ⟨more, rfl⟩ := List.head?_eq_some_iff.mp hhead
      exact hb more rfl rfl
    rw [dropBlockComments_cons hblock, ih fun hin => h (hin.trans (List.suffix_cons ..).isInfix)]
    rfl
  | case5 => rw [dropBlockComments_nil]; rfl

/-- Stripping is one scan of the lines cut at their first `//`, and one scan of the text itself if
no `//` hides the end of a block. -/
theorem strip_scanOnce (code : String) :
    strip code = String.ofList (scanOnce (dropLineComments code.toList)) ∧
      ((∀ p ∈ pieces code.toList, p.Shown) →
        strip code = String.ofList (scanOnce code.toList)) := by
  refine ⟨?_, ?_⟩
  · rw [strip, stripChars, dropBlockComments_eq_scanOnce (no_slashes_dropLineComments _)]
  · intro h
    rw [strip, stripChars_eq_scanOnce h]

/-- Slashes in a block whose end is on a later line, and openings of blocks in a line comment. -/
def mixedComments : String := "a /* // b\n c */ d // /* e\n/* f */ g */"

theorem strip_scanOnce_mixed :
    (∀ p ∈ pieces mixedComments.toList, p.Shown) ∧
      strip mixedComments = String.ofList (scanOnce mixedComments.toList) ∧
      strip mixedComments = "a \n d \n g */" := by
  have h : ∀ p ∈ pieces mixedComments.toList, p.Shown := by decide +kernel
  exact ⟨h, (strip_scanOnce mixedComments).2 h, by decide +kernel⟩

/-- A `//` in a block hides the end of the block and the code after it. -/
theorem slashes_hide_end :
    strip "/* see http://x */ free(p);" = "/* see http:" ∧
      String.ofList (scanOnce "/* see http://x */ free(p);".toList) = " free(p);" ∧
      strip "/* see http://x */ free(p);" ≠
        String.ofList (scanOnce "/* see http://x */ free(p);".toList) := by
  decide +kernel

end HeapAudit.Comment
