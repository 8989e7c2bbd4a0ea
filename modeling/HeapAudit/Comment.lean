import HeapAudit.Text.Basic

namespace HeapAudit.Comment
open Text

/-- The part of a line before its first `//`. -/
def beforeSlashes : Chars → Chars → Chars
  | done, '/' :: '/' :: _ => done.reverse
  | done, c :: cs => beforeSlashes (c :: done) cs
  | done, [] => done.reverse

def dropLineComments (cs : Chars) : Chars :=
  joinWith ['\n'] ((lines cs).map (beforeSlashes []))

/-- After the opening of a block: its newlines, and the text after its end. -/
def closeBlock? : Chars → Chars → Option (Chars × Chars)
  | newlines, '*' :: '/' :: rest => some (newlines, rest)
  | newlines, '\n' :: rest => closeBlock? ('\n' :: newlines) rest
  | newlines, _ :: rest => closeBlock? newlines rest
  | _, [] => none

theorem closeBlock?_length {newlines cs kept rest : Chars}
    (h : closeBlock? newlines cs = some (kept, rest)) : rest.length < cs.length := by
  fun_induction closeBlock? newlines cs with
  | case1 => cases h; simp only [List.length_cons]; omega
  | case2 _ _ ih => have := ih h; simp only [List.length_cons]; omega
  | case3 _ _ _ _ _ ih => have := ih h; simp only [List.length_cons]; omega
  | case4 => cases h

/-- A block that is never closed is text like any other. -/
def dropBlocksFrom (done : Chars) (cs : Chars) : Chars :=
  match cs with
  | '/' :: '*' :: rest =>
    match _h : closeBlock? done rest with
    | some (done, after) => dropBlocksFrom done after
    | none => done.reverse ++ cs
  | c :: rest => dropBlocksFrom (c :: done) rest
  | [] => done.reverse
termination_by cs.length
decreasing_by
  · have := closeBlock?_length _h; simp only [List.length_cons]; omega
  · simp only [List.length_cons]; omega

def dropBlockComments (cs : Chars) : Chars := dropBlocksFrom [] cs

/-- Line comments go first, up to the end of their line; block comments go next, and each leaves its
newlines behind, so lines keep their numbers. String literals are not considered. -/
def stripChars (cs : Chars) : Chars := dropBlockComments (dropLineComments cs)

def strip (code : String) : String := String.ofList (stripChars code.toList)

end HeapAudit.Comment
