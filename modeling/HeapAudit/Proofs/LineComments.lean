import HeapAudit.Proofs.Accounting
import HeapAudit.Proofs.Comments
import HeapAudit.Proofs.Serials

namespace HeapAudit
open Text

/-- A line, and the same line with a space at its end or without. -/
def Spaced (line line' : Chars) : Prop := line' = line ∨ line' = line ++ [' ']

theorem spaced_modifyHead (c : Char) {parts parts' : List Chars}
    (h : List.Forall₂ Spaced parts parts') :
    List.Forall₂ Spaced (parts.modifyHead (c :: ·)) (parts'.modifyHead (c :: ·)) := by
  apply forall₂_modifyHead _ h
  rintro line line' (rfl | rfl)
  · exact .inl rfl
  · exact .inr rfl

/-- A text, and the same text with a space at the end of some of its lines. -/
inductive Padded : Chars → Chars → Prop
  | nil : Padded [] []
  | last : Padded [] [' ']
  | cons (c : Char) {cs cs' : Chars} (h : Padded cs cs') : Padded (c :: cs) (c :: cs')
  | space {cs cs' : Chars} (h : Padded cs cs') : Padded ('\n' :: cs) (' ' :: '\n' :: cs')

namespace Padded

theorem append {cs cs' : Chars} (h : Padded cs cs') (before : Chars) :
    Padded (before ++ cs) (before ++ cs') := by
  induction before with
  | nil => exact h
  | cons c before ih => exact ih.cons c

/-- Lines with spaces at their ends make up a padded text. -/
theorem join {parts parts' : List Chars} (h : List.Forall₂ Spaced parts parts') :
    Padded (joinWith ['\n'] parts) (joinWith ['\n'] parts') := by
  induction h with
  | nil => exact .nil
  | cons hline hrest ih =>
    unfold joinWith at ih ⊢
    cases hrest with
    | nil =>
      rw [List.intercalate_singleton, List.intercalate_singleton]
      rcases hline with rfl | rfl
      · simpa using nil.append _
      · simpa using last.append _
    | cons _ _ =>
      rw [List.intercalate_cons_cons, List.intercalate_cons_cons, List.append_assoc,
        List.append_assoc]
      rcases hline with rfl | rfl
      · exact (ih.cons '\n').append _
      · rw [List.append_assoc]
        exact ih.space.append _

theorem lines {cs cs' : Chars} (h : Padded cs cs') :
    List.Forall₂ Spaced (Text.lines cs) (Text.lines cs') := by
  induction h with
  | nil => exact .cons (.inl rfl) .nil
  | last => exact .cons (.inr rfl) .nil
  | cons c h ih =>
    rw [lines_cons, lines_cons]
    split
    · exact .cons (.inl rfl) ih
    · exact spaced_modifyHead c ih
  | space h ih =>
    rw [lines_cons, if_pos rfl, lines_cons, if_neg (by decide), lines_cons, if_pos rfl]
    exact .cons (.inr rfl) ih

theorem head {cs cs' : Chars} (h : Padded cs cs') {c : Char} (hs : c ≠ ' ') (hn : c ≠ '\n') :
    cs'.head? = some c ↔ cs.head? = some c := by
  cases h with
  | nil => rfl
  | last => simp [hs.symm]
  | cons d h => rfl
  | space h => simp [hs.symm, hn.symm]

/-- What is found of a block, and of the same block in a padded text: the newlines in it are the
same, and the text goes on after it with padding. -/
def Block (found found' : Chars × Chars) : Prop :=
  found'.1.filter (· = '\n') = found.1.filter (· = '\n') ∧ Padded found.2 found'.2

theorem blockEnd? {cs cs' : Chars} (h : Padded cs cs') :
    Option.Rel Block (Comment.blockEnd? cs) (Comment.blockEnd? cs') := by
  induction h with
  | nil => exact .none
  | last => exact .none
  | @cons c cs cs' h ih =>
    by_cases hc : c = '*' ∧ cs.head? = some '/'
    · obtain ⟨rfl, hhead⟩ := hc
      obtain ⟨rest, rfl⟩ := List.head?_eq_some_iff.mp hhead
      cases h with
      | cons _ h => exact .some ⟨rfl, h⟩
    · -- No space comes between the two characters of an end.
      have hc' : ¬(c = '*' ∧ cs'.head? = some '/') := by
        rwa [h.head (by decide) (by decide)]
      rw [Comment.blockEnd?_cons hc, Comment.blockEnd?_cons hc']
      generalize Comment.blockEnd? cs = end? at ih
      generalize Comment.blockEnd? cs' = end?' at ih
      cases ih with
      | none => exact .none
      | some hfound => exact .some ⟨by simp [List.filter_cons, hfound.1], hfound.2⟩
  | @space cs cs' h ih =>
    rw [Comment.blockEnd?_cons (by simp), Comment.blockEnd?_cons (by simp),
      Comment.blockEnd?_cons (by simp)]
    generalize Comment.blockEnd? cs = end? at ih
    generalize Comment.blockEnd? cs' = end?' at ih
    cases ih with
    | none => exact .none
    | some hfound => exact .some ⟨by simp [hfound.1], hfound.2⟩

theorem blockEnd?_some {cs cs' : Chars} (h : Padded cs cs') {found : Chars × Chars}
    (he : Comment.blockEnd? cs = some found) :
    ∃ found', Comment.blockEnd? cs' = some found' ∧ Block found found' := by
  have hrel := h.blockEnd?
  rw [he] at hrel
  generalize Comment.blockEnd? cs' = end?' at hrel
  cases hrel with
  | some hfound => exact ⟨_, rfl, hfound⟩

theorem blockEnd?_none {cs cs' : Chars} (h : Padded cs cs') (he : Comment.blockEnd? cs = none) :
    Comment.blockEnd? cs' = none := by
  have hrel := h.blockEnd?
  rw [he] at hrel
  generalize Comment.blockEnd? cs' = end?' at hrel
  cases hrel with
  | none => rfl

/-- Spaces come before newlines only, so a block opens where it did. -/
theorem opening {rest cs' : Chars} (h : Padded ('/' :: '*' :: rest) cs') :
    ∃ rest', cs' = '/' :: '*' :: rest' ∧ Padded rest rest' := by
  cases h with
  | cons _ h =>
    cases h with
    | cons _ h => exact ⟨_, rfl, h⟩

theorem dropBlockComments {cs cs' : Chars} (h : Padded cs cs') :
    Padded (Comment.dropBlockComments cs) (Comment.dropBlockComments cs') := by
  induction cs using Comment.blocks_induction generalizing cs' with
  | nil =>
    cases h with
    | nil =>
      rw [Comment.dropBlockComments_nil]
      exact .nil
    | last =>
      rw [Comment.dropBlockComments_cons (by simp), Comment.dropBlockComments_nil]
      exact .last
  | block rest body after hend ih =>
    obtain ⟨rest', rfl, hrest⟩ := h.opening
    obtain ⟨found, hend', hnewlines, hafter⟩ := hrest.blockEnd?_some hend
    rw [Comment.dropBlockComments_block hend, Comment.dropBlockComments_block hend', hnewlines]
    exact (ih hafter).append _
  | unclosed rest hend =>
    obtain ⟨rest', rfl, hrest⟩ := h.opening
    have hend' := hrest.blockEnd?_none hend
    rw [Comment.dropBlockComments_unclosed hend, Comment.dropBlockComments_unclosed hend']
    exact h
  | cons c cs hc ih =>
    rw [Comment.dropBlockComments_cons hc]
    cases h with
    | @cons _ _ cs' h =>
      have hc' : ¬(c = '/' ∧ cs'.head? = some '*') := by
        rwa [h.head (by decide) (by decide)]
      rw [Comment.dropBlockComments_cons hc']
      exact (ih h).cons c
    | space h =>
      rw [Comment.dropBlockComments_cons (by simp), Comment.dropBlockComments_cons (by simp)]
      exact (ih h).space

end Padded

/-- A line, and the same line with a comment at its end or without. -/
def Commented (line line' : Chars) : Prop := line' = line ∨ line ++ [' ', '/', '/'] <+: line'

instance : DecidableRel Commented := fun _ _ => inferInstanceAs (Decidable (_ ∨ _))

/-- A source, and the same source with comments at the ends of some of its lines. -/
def Annotated (source source' : String) : Prop :=
  List.Forall₂ Commented (lines source.toList) (lines source'.toList)

instance : DecidableRel Annotated := fun _ _ => inferInstanceAs (Decidable (List.Forall₂ ..))

namespace Comment

theorem beforeSlashes_append (line text : Chars) :
    Spaced (beforeSlashes [] line) (beforeSlashes [] (line ++ ' ' :: '/' :: '/' :: text)) := by
  induction line with
  | nil => exact .inr rfl
  | cons c line ih =>
    by_cases hs : c = '/' ∧ line.head? = some '/'
    · obtain ⟨rfl, hhead⟩ := hs
      obtain ⟨rest, rfl⟩ := List.head?_eq_some_iff.mp hhead
      exact .inl rfl
    · have hs' : ¬(c = '/' ∧ (line ++ ' ' :: '/' :: '/' :: text).head? = some '/') := by
        cases line with
        | nil => simp
        | cons d line => exact hs
      rw [List.cons_append, beforeSlashes_cons hs, beforeSlashes_cons hs']
      rcases ih with he | he
      · exact .inl (by rw [he])
      · exact .inr (by rw [he]; rfl)

theorem beforeSlashes_commented {line line' : Chars} (h : Commented line line') :
    Spaced (beforeSlashes [] line) (beforeSlashes [] line') := by
  rcases h with rfl | ⟨text, rfl⟩
  · exact .inl rfl
  · rw [List.append_assoc]
    exact beforeSlashes_append line text

/-- A comment at the end of a line leaves at most a space there, and the removal of blocks is blind
to such spaces. -/
theorem strip_annotated {source source' : String} (h : Annotated source source') :
    Padded (strip source).toList (strip source').toList := by
  have hlines : List.Forall₂ Spaced ((lines source.toList).map (beforeSlashes []))
      ((lines source'.toList).map (beforeSlashes [])) := by
    rw [List.forall₂_map_left_iff, List.forall₂_map_right_iff]
    exact h.imp fun _ _ => beforeSlashes_commented
  unfold strip stripChars dropLineComments
  rw [String.toList_ofList, String.toList_ofList]
  exact (Padded.join hlines).dropBlockComments

end Comment

namespace LineScan

theorem State.scanLine_spaced {line line' : Chars} (h : Spaced line line') (language : Language)
    (tables : Tables) (s : State) (number : Nat) :
    s.scanLine language tables number line' = s.scanLine language tables number line := by
  rcases h with rfl | rfl
  · rfl
  · unfold State.scanLine
    rw [trim_space]
    by_cases hn : trim line = []
    · simp [hn]
    · rw [indent_space hn]

theorem scanLines_spaced {ls ls' : List Chars} (h : List.Forall₂ Spaced ls ls')
    (language : Language) (tables : Tables) (s : State) (number : Nat) :
    scanLines language tables s number ls' = scanLines language tables s number ls := by
  induction h generalizing s number with
  | nil => rfl
  | cons hline _ ih =>
    unfold scanLines
    rw [State.scanLine_spaced hline, ih]

/-- The same events, on the same lines. -/
theorem extract_annotated {source source' : String} (h : Annotated source source')
    (language : Language) (tables : Tables) :
    extract language tables (Comment.strip source') =
      extract language tables (Comment.strip source) := by
  unfold extract
  rw [scanLines_spaced (Comment.strip_annotated h).lines]

end LineScan

theorem Annotated.nonempty {source source' : String} (h : Annotated source source')
    (hs : source ≠ "") : source' ≠ "" := by
  rintro rfl
  unfold Annotated at h
  generalize hls : lines source.toList = ls at h
  obtain _ | ⟨hline, ⟨⟩⟩ := h
  rename_i line
  have hline : line = [] := by
    rcases hline with he | he
    · exact he.symm
    · simp at he
  rw [hline] at hls
  exact hs (String.toList_eq_nil_iff.mp (lines_eq_nil hls))

/-- What is found by tracking: all but the remarks on single calls. -/
def Analysis.tracked (result : Analysis) : Findings where
  allocations := result.allocations
  frees := result.frees
  leaks := result.leaks
  warnings := result.warnings.filter (·.kind ≠ .unsafeFunction)

theorem Analysis.Carries.tracked {result : Analysis} {language : Language} {serial : Nat}
    {events : List Event} {remarks : List Warning}
    (h : result.Carries (Ledger.run .standard (.fresh language serial) events) remarks)
    (hp : ∀ e ∈ events, Ledger.Plain .standard language e)
    (hr : ∀ w ∈ remarks, w.kind = .unsafeFunction) :
    result.tracked = (Ledger.run .standard (.fresh language serial) events).findings := by
  have ht : Ledger.Traced .standard language serial events _ := Ledger.after_traced hp
  obtain ⟨-, -, hwarnings⟩ := Ledger.run_frame .standard language serial events
  have hkept : ∀ w ∈ (Ledger.run .standard (.fresh language serial) events).warnings,
      w.kind ≠ .unsafeFunction := by
    intro w hw
    rw [hwarnings] at hw
    rcases ht.remarks w hw with hk | hk
    · simp [hk]
    · simp [hk]
  have hleft : result.warnings.filter (·.kind ≠ .unsafeFunction) =
      (Ledger.run .standard (.fresh language serial) events).warnings := by
    rw [h.warnings, List.filter_append, List.filter_eq_self.mpr (by simpa using hkept),
      List.filter_eq_nil_iff.mpr (by simpa using hr), List.append_nil]
  unfold Analysis.tracked Ledger.findings
  rw [h.allocations, h.frees, h.leaks, hleft]

namespace Analyzer

/-- Comments at the ends of lines change neither what tracking finds nor the course of the memory:
only the numbers in the ids are those of another run. -/
theorem analyze_line_comments (a : Analyzer) (serial serial' : Nat)
    (source source' filename filename' : String) (requested : Value) (language : Language)
    (ha : a.Standard) (hm : a.maxChars = none) (hs : source ≠ "")
    (hn : Annotated source source')
    (hl : Language.resolve (.text (a.requested requested)) = language)
    (hc : a.chain language = [.line language]) :
    ∃ result next result' next',
      a.analyze serial (.text source) filename requested = .ok (result, next) ∧
        a.analyze serial' (.text source') filename' requested = .ok (result', next') ∧
        result.tracked.Alike result'.tracked ∧ result.timeline = result'.timeline := by
  have hadmits : a.Admits source := ⟨hs, by simp [hm]⟩
  have hadmits' : a.Admits source' := ⟨hn.nonempty hs, by simp [hm]⟩
  obtain ⟨result, next, hrun, hcarries⟩ :=
    analyze_carries ha hadmits serial filename requested hl hc
  obtain ⟨result', next', hrun', hcarries'⟩ :=
    analyze_carries ha hadmits' serial' filename' requested hl hc
  -- From here on only the ledgers' first numbers differ.
  rw [LineScan.extract_annotated hn] at hcarries'
  have hp : ∀ e ∈ LineScan.extract language {} (Comment.strip source),
      Ledger.Plain .standard language e :=
    fun e he => (LineScan.extract_scanned language {} _ e he).plain language
  obtain ⟨halike, htimeline⟩ := Ledger.run_abreast .standard language serial serial' hp
  refine ⟨result, next, result', next', hrun, hrun', ?_, ?_⟩
  · rw [hcarries.tracked hp (Quality.scan_kind _ _), hcarries'.tracked hp (Quality.scan_kind _ _)]
    exact halike
  · rw [hcarries.timeline, hcarries'.timeline, htimeline]

/-- A comment, a block over two lines, and an allocation that is left. -/
def plainSource : String :=
  "int main() \x7b\n  p = malloc(8); // one\n  /* q = malloc(4);\n  */ free(p);\n" ++
    "  r = new int[2];\n\x7d"

/-- In the comments: code, openings and ends of blocks, a brace, quotes, and a mark of
continuation. -/
def annotatedSource : String :=
  "int main() \x7b // \x7d /*\n  p = malloc(8); // one // free(p);\n" ++
    "  /* q = malloc(4); // */ s = malloc(1);\n  */ free(p); // \" '\n" ++
    "  r = new int[2];\n\x7d // \\"

def unlimited : Analyzer := { chain := ScriptParser.absent.chain }

theorem analyze_line_comments_blocks :
    unlimited.Standard ∧ plainSource ≠ "" ∧ Annotated plainSource annotatedSource ∧
      (LineScan.extract .cpp {} (Comment.strip plainSource)).map (·.var) = ["p", "p", "r"] ∧
      ∃ result next result' next',
        unlimited.analyze 1 (.text plainSource) "a.cc" (.text "cpp") = .ok (result, next) ∧
          unlimited.analyze 7 (.text annotatedSource) "b.cc" (.text "cpp") =
            .ok (result', next') ∧
          result.tracked.Alike result'.tracked ∧ result.timeline = result'.timeline := by
  have ha : unlimited.Standard := ⟨rfl, rfl, rfl⟩
  have hs : plainSource ≠ "" := by decide
  have hn : Annotated plainSource annotatedSource := by decide +kernel
  have hl : Language.resolve (.text (unlimited.requested (.text "cpp"))) = .cpp := by
    decide +kernel
  exact ⟨ha, hs, hn, by decide +kernel,
    analyze_line_comments unlimited 1 7 plainSource annotatedSource "a.cc" "b.cc" (.text "cpp")
      .cpp ha rfl hs hn hl rfl⟩

end Analyzer

end HeapAudit
