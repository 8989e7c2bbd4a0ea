import HeapAudit.Proofs.Comments
import HeapAudit.Proofs.Gathering
import HeapAudit.Proofs.PreOrder

namespace HeapAudit
open Text

/-- A text, and the same text with more characters in its lines. -/
inductive Thinned : Chars → Chars → Prop
  | nil : Thinned [] []
  | kept (c : Char) {cs cs' : Chars} (h : Thinned cs cs') : Thinned (c :: cs) (c :: cs')
  | dropped {c : Char} (hc : c ≠ '\n') {cs cs' : Chars} (h : Thinned cs cs') :
      Thinned cs (c :: cs')

namespace Thinned

theorem refl (cs : Chars) : Thinned cs cs := by
  induction cs with
  | nil => exact .nil
  | cons c cs ih => exact ih.kept c

theorem trans {cs ds es : Chars} (h : Thinned cs ds) (h' : Thinned ds es) : Thinned cs es := by
  induction h' generalizing cs with
  | nil => exact h
  | kept c _ ih =>
    cases h with
    | kept _ h => exact (ih h).kept c
    | dropped hc h => exact (ih h).dropped hc
  | dropped hc _ ih => exact (ih h).dropped hc

/-- Only the newlines of a part are left. -/
theorem newlines {cs cs' : Chars} (h : Thinned cs cs') (part : Chars) :
    Thinned (part.filter (· = '\n') ++ cs) (part ++ cs') := by
  induction part with
  | nil => exact h
  | cons c part ih =>
    by_cases hc : c = '\n'
    · rw [List.filter_cons_of_pos (by simp [hc])]
      exact ih.kept c
    · rw [List.filter_cons_of_neg (by simp [hc])]
      exact ih.dropped hc

theorem count {cs cs' : Chars} (h : Thinned cs cs') : cs.count '\n' = cs'.count '\n' := by
  induction h with
  | nil => rfl
  | kept c _ ih => rw [List.count_cons, List.count_cons, ih]
  | dropped hc _ ih => rw [List.count_cons_of_ne hc, ih]

theorem lines {cs cs' : Chars} (h : Thinned cs cs') :
    List.Forall₂ List.Sublist (Text.lines cs) (Text.lines cs') := by
  induction h with
  | nil => exact .cons (List.Sublist.refl _) .nil
  | kept c _ ih =>
    rw [lines_cons, lines_cons]
    split
    · exact .cons (List.Sublist.refl _) ih
    · apply forall₂_modifyHead _ ih
      intro line line' hline
      exact hline.cons_cons c
  | @dropped c hc cs cs' _ ih =>
    have hsame : (Text.lines cs).modifyHead id = Text.lines cs := congrFun List.modifyHead_id _
    rw [lines_cons, if_neg hc, ← hsame]
    apply forall₂_modifyHead _ ih
    intro line line' hline
    exact hline.cons c

end Thinned

namespace Comment

theorem thinned_dropLineComments (cs : Chars) : Thinned (dropLineComments cs) cs := by
  induction cs using slashes_induction with
  | nil => exact .nil
  | slashes cs ih =>
    have hnone : (cs.takeWhile (· ≠ '\n')).filter (· = '\n') = [] := by
      rw [List.filter_eq_nil_iff]
      intro c hc
      simpa using List.mem_takeWhile_imp hc
    have hline := ih.newlines (cs.takeWhile (· ≠ '\n'))
    rw [hnone, List.takeWhile_append_dropWhile] at hline
    rw [dropLineComments_slashes]
    exact (hline.dropped (by decide)).dropped (by decide)
  | cons c cs hc ih =>
    rw [dropLineComments_cons hc]
    exact ih.kept c

theorem thinned_dropBlockComments (cs : Chars) : Thinned (dropBlockComments cs) cs := by
  induction cs using blocks_induction with
  | nil =>
    rw [dropBlockComments_nil]
    exact .nil
  | block rest body after he ih =>
    have hend : Thinned (dropBlockComments after) ('*' :: '/' :: after) :=
      (ih.dropped (by decide)).dropped (by decide)
    have hblock := hend.newlines body
    rw [← (blockEnd?_some he).1] at hblock
    rw [dropBlockComments_block he]
    exact (hblock.dropped (by decide)).dropped (by decide)
  | unclosed rest he =>
    rw [dropBlockComments_unclosed he]
    exact Thinned.refl _
  | cons c cs hc ih =>
    rw [dropBlockComments_cons hc]
    exact ih.kept c

theorem thinned_strip (code : String) : Thinned (strip code).toList code.toList := by
  rw [strip, String.toList_ofList]
  exact (thinned_dropBlockComments _).trans (thinned_dropLineComments _)

end Comment

/-- An event on a line, of which it shows a part. -/
def Event.Within (ls : List Chars) (e : Event) : Prop :=
  ∃ (n : Nat) (line : Chars), ls[n]? = some line ∧ e.line = some (n + 1 : Int) ∧
    e.lineText.toList.Sublist line

/-- Lines keep their numbers when characters are left out. -/
theorem Thinned.within {cs cs' : Chars} (h : Thinned cs cs') {e : Event}
    (he : e.At (Text.lines cs)) : e.Within (Text.lines cs') := by
  obtain ⟨n, line, hget, hline, htext⟩ := he
  obtain ⟨hn, rfl⟩ := List.getElem?_eq_some_iff.mp hget
  obtain ⟨hlength, hlines⟩ := List.forall₂_iff_get.mp h.lines
  have hn' : n < (Text.lines cs').length := hlength ▸ hn
  refine ⟨n, _, List.getElem?_eq_getElem hn', hline, ?_⟩
  rw [htext, String.toList_ofList]
  exact (trim_sublist _).trans (hlines n hn hn')

namespace Syntax

/-- Every node of a tree starts on one of some lines. -/
def Node.Starts (ls : List Chars) (root : Node) : Prop :=
  ∀ s ∈ root.spots [], 0 ≤ s.node.row ∧ s.node.row < ls.length

instance (ls : List Chars) (root : Node) : Decidable (root.Starts ls) :=
  inferInstanceAs (Decidable (∀ s ∈ root.spots [], _))

theorem lineText_ofText {text : String} {row : Int} (h0 : 0 ≤ row)
    (hrow : row < (lines text.toList).length) :
    ∃ line, (lines text.toList)[row.toNat]? = some line ∧
      (Source.ofText text).lineText (row + 1) = String.ofList (trim line) := by
  have hn : row.toNat < (lines text.toList).length := by omega
  refine ⟨_, List.getElem?_eq_getElem hn, ?_⟩
  have hrange : 0 < row + 1 ∧ row + 1 ≤ (Source.ofText text).lines.size := by
    simp only [Source.ofText, List.size_toArray]
    omega
  unfold Source.lineText
  rw [if_pos hrange, Int.add_sub_cancel]
  simp [Source.ofText, hn]

theorem walk_at {text : String} {root : Node} (hroot : root.Starts (lines text.toList)) :
    ∀ e ∈ walk (.ofText text) root, e.At (lines text.toList) := by
  intro e he
  rw [walk_eq_spots] at he
  obtain ⟨s, hs, hevent⟩ := List.mem_filterMap.mp he
  obtain ⟨anchor, hanchor, hline, htext⟩ := (Visit.event?_gives hevent).2.place
  have hstart : 0 ≤ anchor.row ∧ anchor.row < (lines text.toList).length := by
    rcases hanchor with rfl | hparent
    · exact hroot s hs
    · rcases root.spots_parent hs with rfl | ⟨parent, hp, -, hancestors⟩
      · cases hparent
      · have hhead : s.ancestors.head? = some anchor := hparent
        rw [hancestors, List.head?_cons, Option.some.injEq] at hhead
        rw [← hhead]
        exact hroot parent hp
  obtain ⟨line, hget, hshown⟩ := lineText_ofText hstart.1 hstart.2
  refine ⟨anchor.row.toNat, line, hget, ?_, ?_⟩
  · rw [hline, Int.toNat_of_nonneg hstart.1]
  · rw [htext, hshown]

end Syntax

/-- A stripped text has as many newlines as the text, and each of its lines is made of characters of
the same line of the text, in order. So what is found on a line of the stripped text is on the line
of that number in the text, whether lines are scanned or a tree that starts its nodes there is
walked. -/
theorem strip_keeps_lines (code : String) :
    (Comment.strip code).toList.count '\n' = code.toList.count '\n' ∧
      List.Forall₂ List.Sublist (lines (Comment.strip code).toList) (lines code.toList) ∧
      (∀ language tables, ∀ e ∈ LineScan.extract language tables (Comment.strip code),
        e.Within (lines code.toList)) ∧
      ∀ root : Syntax.Node, root.Starts (lines (Comment.strip code).toList) →
        ∀ e ∈ Syntax.walk (.ofText (Comment.strip code)) root, e.Within (lines code.toList) := by
  have hthin := Comment.thinned_strip code
  refine ⟨hthin.count, hthin.lines, ?_, ?_⟩
  · intro language tables e he
    exact hthin.within (LineScan.extract_at language tables _ e he)
  · intro root hroot e he
    exact hthin.within (Syntax.walk_at hroot e he)

/-- A block over two lines, and a line comment after two releases. -/
def blockedCode : String := "/* a\n b */ delete x; x = null; // c"

/-- The assignment where it is in the stripped text. -/
def blockedRoot : Syntax.Node :=
  ⟨.assignment, true, none, 12, 20, 1,
    [⟨.identifier, true, some .left, 12, 13, 1, []⟩, ⟨.null, true, some .right, 16, 20, 1, []⟩]⟩

theorem strip_keeps_lines_blocked :
    Comment.strip blockedCode = "\n delete x; x = null; " ∧
      (∃ e ∈ LineScan.extract .cpp {} (Comment.strip blockedCode),
        e.line = some 2 ∧ e.Within (lines blockedCode.toList)) ∧
      blockedRoot.Starts (lines (Comment.strip blockedCode).toList) ∧
      ∃ e ∈ Syntax.walk (.ofText (Comment.strip blockedCode)) blockedRoot,
        e.line = some 2 ∧ e.Within (lines blockedCode.toList) := by
  obtain ⟨-, -, hscanned, hwalked⟩ := strip_keeps_lines blockedCode
  have hstarts : blockedRoot.Starts (lines (Comment.strip blockedCode).toList) := by decide +kernel
  refine ⟨by decide +kernel, ?_, hstarts, ?_⟩
  · have hline : some 2 ∈ (LineScan.extract .cpp {} (Comment.strip blockedCode)).map (·.line) := by
      decide +kernel
    obtain ⟨e, he, hl⟩ := List.mem_map.mp hline
    exact ⟨e, he, hl, hscanned .cpp {} e he⟩
  · have hline : some 2 ∈
        (Syntax.walk (.ofText (Comment.strip blockedCode)) blockedRoot).map (·.line) := by
      decide +kernel
    obtain ⟨e, he, hl⟩ := List.mem_map.mp hline
    exact ⟨e, he, hl, hwalked blockedRoot hstarts e he⟩

end HeapAudit
