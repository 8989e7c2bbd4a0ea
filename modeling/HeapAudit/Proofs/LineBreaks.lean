import HeapAudit.Proofs.ScanSteps
import HeapAudit.Proofs.Segments

namespace HeapAudit

/-- What an event says, wherever it stands: its kind, variable, primitive and arguments, and whether
it is of an array. -/
def Event.gist (e : Event) : EventKind × String × String × Arguments × Bool :=
  (e.kind, e.var, e.primitive, e.arguments, e.isArray)

namespace LineScan
open Text

variable {language : Language} {tables : Tables}

/-- What the segments of a statement say. -/
def gists (tables : Tables) (statement : Chars) :
    List (EventKind × String × String × Arguments × Bool) :=
  (Statement.segments statement).flatMap fun segment =>
    (segmentEvents tables [] 0 [] segment).map Event.gist

theorem segmentEvents_gist (scopes : List Scope) (line : Nat) (head segment : Chars) :
    (segmentEvents tables scopes line head segment).map Event.gist =
      (segmentEvents tables [] 0 [] segment).map Event.gist := by
  have ha : (acquisition? tables scopes line head segment).map Event.gist =
      (acquisition? tables [] 0 [] segment).map Event.gist := by
    unfold acquisition?
    rw [Option.map_map, Option.map_map]
    rfl
  have hr : (release? tables scopes line head segment).map Event.gist =
      (release? tables [] 0 [] segment).map Event.gist := by
    unfold release?
    rw [Option.map_map, Option.map_map]
    rfl
  unfold segmentEvents
  rw [List.map_append, List.map_append, ← Option.toList_map, ← Option.toList_map, ha, hr,
    Option.toList_map, Option.toList_map]

theorem Pending.events_gist (p : Pending) (scopes : List Scope) :
    (p.events tables scopes).map Event.gist = gists tables p.statement := by
  unfold Pending.events gists
  rw [List.map_flatMap]
  simp only [segmentEvents_gist]

/-- What a scan has found if it ends here. -/
def State.told (tables : Tables) (s : State) :
    List (EventKind × String × String × Arguments × Bool) :=
  s.events.map Event.gist ++ (s.pending.map fun p => gists tables p.statement).getD []

/-- The statement that is pending, with the text of one more line. -/
def State.statement (s : State) (text : Chars) : Chars :=
  joinWith [' '] ((s.pending.map Pending.parts).getD [] ++ [text])

/-- What a scan has found if it ends with the text of one more line. -/
def State.toldWith (tables : Tables) (s : State) (text : Chars) :
    List (EventKind × String × String × Arguments × Bool) :=
  s.events.map Event.gist ++ gists tables (s.statement text)

/-- All parts but the last are followed by a space. -/
theorem joinWith_concat (parts : List Chars) (last : Chars) :
    joinWith [' '] (parts ++ [last]) = parts.flatMap (· ++ [' ']) ++ last := by
  induction parts with
  | nil => simp [joinWith, List.intercalate]
  | cons part parts ih =>
    obtain ⟨next, rest, hne⟩ : ∃ next rest, parts ++ [last] = next :: rest :=
      List.exists_cons_of_ne_nil (by simp)
    rw [hne] at ih
    unfold joinWith at ih ⊢
    rw [List.cons_append, hne, List.intercalate_cons_cons, ih, List.flatMap_cons]
    simp

theorem State.statement_vacant {s : State} (hp : s.pending = none) (text : Chars) :
    s.statement text = text := by
  rw [State.statement, joinWith_concat, hp]
  rfl

theorem State.statement_append (s : State) (text more : Chars) :
    s.statement (text ++ more) = s.statement text ++ more := by
  rw [State.statement, State.statement, joinWith_concat, joinWith_concat, List.append_assoc]

theorem Pending.add_statement (s : State) (number : Nat) (line : Chars) :
    (Pending.add s.pending number line).statement = s.statement (contents line) := by
  unfold Pending.add State.statement Pending.statement
  cases s.pending with
  | none => rfl
  | some p => rfl

/-- Two scans that have found the same, and will have found the same after any further lines. -/
structure Same (tables : Tables) (s s' : State) : Prop where
  inDirective : s.inDirective = s'.inDirective
  pending : s.pending.isNone = s'.pending.isNone
  told : s.told tables = s'.told tables
  toldWith : ∀ text, s.toldWith tables text = s'.toldWith tables text

section Line

variable {s s' : State} {number number' indentation indentation' : Nat} {line : Chars}

theorem State.told_take (s : State) (number indentation : Nat) (line : Chars) :
    (s.take language tables number indentation line).told tables =
      s.toldWith tables (contents line) := by
  unfold State.told State.toldWith
  cases hc : completes language (Pending.add s.pending number line) line with
  | true =>
    obtain ⟨hp, -, scopes, he⟩ := State.take_completed tables indentation hc
    rw [hp, he, List.map_append, Pending.events_gist, Pending.add_statement]
    exact List.append_nil _
  | false =>
    obtain ⟨hp, -, he⟩ := State.take_open tables indentation hc
    rw [hp, he, Option.map_some, Pending.add_statement]
    rfl

/-- After a completed statement the next line starts a new one. -/
theorem State.toldWith_take_completed (tables : Tables) (indentation : Nat)
    (hc : completes language (Pending.add s.pending number line) line = true) (text : Chars) :
    (s.take language tables number indentation line).toldWith tables text =
      s.toldWith tables (contents line) ++ gists tables text := by
  obtain ⟨hp, -, scopes, he⟩ := State.take_completed tables indentation hc
  unfold State.toldWith
  rw [he, List.map_append, Pending.events_gist, Pending.add_statement, State.statement_vacant hp]

/-- Otherwise it goes on after a space. -/
theorem State.toldWith_take_open (tables : Tables) (indentation : Nat)
    (hc : completes language (Pending.add s.pending number line) line = false) (text : Chars) :
    (s.take language tables number indentation line).toldWith tables text =
      s.toldWith tables (contents line ++ ' ' :: text) := by
  obtain ⟨hp, -, he⟩ := State.take_open tables indentation hc
  unfold State.toldWith
  rw [he]
  congr 2
  unfold State.statement
  rw [hp, joinWith_concat, joinWith_concat]
  unfold Pending.add
  cases s.pending with
  | none => simp
  | some p => simp

/-- Lines that end alike complete the statement or not alike, so two scans that say the same with
the one and with the other say the same after them. -/
theorem Same.of_take (hl : language.endsAtNewline = false) {line' : Chars}
    (hlast : line.getLast? = line'.getLast?) (hd : s.inDirective = s'.inDirective)
    (htold : s.toldWith tables (contents line) = s'.toldWith tables (contents line'))
    (hmore : ∀ text, s.toldWith tables (contents line ++ ' ' :: text) =
      s'.toldWith tables (contents line' ++ ' ' :: text)) :
    Same tables (s.take language tables number indentation line)
      (s'.take language tables number' indentation' line') := by
  have hcongr := completes_congr hl (Pending.add s.pending number line)
    (Pending.add s'.pending number' line') hlast
  cases hc : completes language (Pending.add s.pending number line) line with
  | true =>
    have hc' := hcongr.symm.trans hc
    obtain ⟨hp, hi, -⟩ := State.take_completed tables indentation hc
    obtain ⟨hp', hi', -⟩ := State.take_completed tables indentation' hc'
    refine ⟨by rw [hi, hi', hd], by rw [hp, hp'], ?_, ?_⟩
    · rw [State.told_take, State.told_take, htold]
    · intro text
      rw [State.toldWith_take_completed tables _ hc, State.toldWith_take_completed tables _ hc',
        htold]
  | false =>
    have hc' := hcongr.symm.trans hc
    obtain ⟨hp, hi, -⟩ := State.take_open tables indentation hc
    obtain ⟨hp', hi', -⟩ := State.take_open tables indentation' hc'
    refine ⟨by rw [hi, hi', hd], by rw [hp, hp']; rfl, ?_, ?_⟩
    · rw [State.told_take, State.told_take, htold]
    · intro text
      rw [State.toldWith_take_open tables _ hc, State.toldWith_take_open tables _ hc', hmore]

theorem Same.isDirective (h : Same tables s s') (language : Language) (line : Chars) :
    s.isDirective language line = s'.isDirective language line := by
  unfold State.isDirective
  rw [h.inDirective, h.pending]

theorem Same.scanLine (hl : language.endsAtNewline = false) (h : Same tables s s')
    (number number' : Nat) (line : Chars) :
    Same tables (s.scanLine language tables number line)
      (s'.scanLine language tables number' line) := by
  by_cases hn : trim line = []
  · rw [State.scanLine_blank hn, State.scanLine_blank hn]
    exact h
  · have hcongr := h.isDirective language (trim line)
    cases hd : s.isDirective language (trim line) with
    | true =>
      rw [State.scanLine_directive hn hd, State.scanLine_directive hn (hcongr ▸ hd)]
      exact ⟨rfl, h.pending, h.told, h.toldWith⟩
    | false =>
      rw [State.scanLine_read hn hd, State.scanLine_read hn (hcongr ▸ hd)]
      exact Same.of_take hl rfl h.inDirective (h.toldWith _) fun _ => h.toldWith _

theorem Same.scanLines (hl : language.endsAtNewline = false) (h : Same tables s s')
    (number number' : Nat) (below : List Chars) :
    Same tables (LineScan.scanLines language tables s number below)
      (LineScan.scanLines language tables s' number' below) := by
  induction below generalizing s s' number number' with
  | nil => exact h
  | cons line below ih => exact ih (h.scanLine hl number number' line) _ _

end Line

theorem extract_gist (source : String) :
    (extract language tables source).map Event.gist =
      (scanLines language tables {} 1 (lines source.toList)).told tables := by
  unfold extract State.flush State.told
  generalize scanLines language tables {} 1 (lines source.toList) = s
  cases hp : s.pending with
  | none => simp
  | some p => simp [Pending.events_gist]

/-- A space between two characters that are not blanks, on a line that is read. The text before it
ends in `u`, in the same line, and the text after it starts with `v`. -/
structure Gap (language : Language) (tables : Tables) (s t : Chars) (before : List Chars)
    (u v : Chars) (after : List Chars) : Prop where
  above : lines s = before ++ [u]
  below : lines t = v :: after
  left : ∃ c, u.getLast? = some c ∧ isBlank c = false
  right : ∃ c, v.head? = some c ∧ isBlank c = false
  read : (scanLines language tables {} 1 before).isDirective language (trim (u ++ ' ' :: v)) =
    false

theorem getLast?_gap (x : Chars) {y : Chars} (hy : y ≠ []) :
    (x ++ ' ' :: y).getLast? = y.getLast? := by
  rw [List.getLast?_append_of_ne_nil x (List.cons_ne_nil _ _), List.getLast?_cons_of_ne_nil hy]

/-- The mark of continuation is at the end of the second part, unless that is all there is. -/
theorem contents_gap (x : Chars) {b : Char} {rest : Chars} (hb : isBlank b = false)
    (hy : b :: rest ≠ ['\\']) :
    contents (x ++ ' ' :: b :: rest) = x ++ ' ' :: contents (b :: rest) := by
  have hc := isContinued_congr (getLast?_gap x (List.cons_ne_nil b rest))
  unfold contents
  rw [hc]
  split
  · rename_i hcont
    have hrest : rest ≠ [] := by
      rintro rfl
      have hlast := isContinued_iff.mp hcont
      simp only [List.getLast?_singleton, Option.some.injEq] at hlast
      exact hy (by rw [hlast])
    have hdrop : (x ++ ' ' :: b :: rest).dropLast = x ++ [' '] ++ (b :: rest.dropLast) := by
      rw [List.dropLast_append_of_ne_nil (List.cons_ne_nil _ _),
        List.dropLast_cons_of_ne_nil (List.cons_ne_nil _ _), List.dropLast_cons_of_ne_nil hrest]
      simp
    rw [hdrop, trimRight_append (inked_cons hb _), List.dropLast_cons_of_ne_nil hrest]
    simp
  · rfl

/-- A semicolon at the top level of the statement parts what is found before it from what is found
after it. -/
theorem State.toldWith_semicolon (tables : Tables) {s : State} {x : Chars}
    (h : (Statement.placeAfter (s.statement x)).atTop = true) (text : Chars) :
    s.toldWith tables (x ++ [';'] ++ text) =
      s.toldWith tables (x ++ [';']) ++ gists tables text := by
  have hnil : Statement.segments [] = [] := rfl
  unfold State.toldWith gists
  rw [State.statement_append, State.statement_append, List.append_assoc, List.singleton_append,
    Statement.segments_append h, Statement.segments_append h, hnil, List.flatMap_append,
    List.append_nil, List.append_assoc]

theorem gists_blank (text : Chars) : gists tables (' ' :: text) = gists tables text := by
  rw [gists, gists, Statement.segments_blank]

theorem trim_gap {c b : Char} (hc : isBlank c = false) (hb : isBlank b = false) (u v : Chars) :
    trim (u ++ [c] ++ ' ' :: b :: v) = trimLeft u ++ [c] ++ ' ' :: b :: trimRight v := by
  have hsplit : trimLeft u ++ [c] ++ ' ' :: b :: v = (trimLeft u ++ [c] ++ [' ']) ++ b :: v := by
    simp
  rw [trim, trimLeft_append (inked_concat hc u), trimLeft_concat hc, hsplit,
    trimRight_append (inked_cons hb v), trimRight_cons hb]
  simp

theorem trim_first {c : Char} (hc : isBlank c = false) {mark : Chars}
    (hm : mark = [] ∨ mark = ['\\']) (u : Chars) :
    trim (u ++ [c] ++ mark) = trimLeft u ++ [c] ++ mark := by
  rw [trim, trimLeft_append (inked_concat hc u), trimLeft_concat hc]
  rcases hm with rfl | rfl
  · rw [List.append_nil, trimRight_concat hc]
  · rw [trimRight_concat (by decide)]

/-- The mark of continuation is no part of a line's text. -/
theorem contents_first {c : Char} (hc : isBlank c = false) (hn : c ≠ '\\') {mark : Chars}
    (hm : mark = [] ∨ mark = ['\\']) (x : Chars) : contents (x ++ [c] ++ mark) = x ++ [c] := by
  unfold contents
  rcases hm with rfl | rfl
  · rw [List.append_nil, if_neg]
    intro hcont
    have hlast := isContinued_iff.mp hcont
    simp only [List.getLast?_concat, Option.some.injEq] at hlast
    exact hn hlast
  · rw [if_pos (isContinued_iff.mpr List.getLast?_concat), List.dropLast_concat,
      trimRight_concat hc]

/-- A mark of continuation that stands alone leaves the text before it. -/
theorem contents_lone {c : Char} (hc : isBlank c = false) (x : Chars) :
    contents (x ++ [c] ++ ' ' :: ['\\']) = x ++ [c] := by
  have hsplit : x ++ [c] ++ ' ' :: ['\\'] = (x ++ [c] ++ [' ']) ++ ['\\'] := by simp
  unfold contents
  rw [hsplit, if_pos (isContinued_iff.mpr List.getLast?_concat), List.dropLast_concat, trimRight,
    List.reverse_append, List.reverse_append]
  change (List.dropWhile isBlank (c :: x.reverse)).reverse = _
  rw [List.dropWhile_cons_of_neg (by simp [hc]), List.reverse_cons, List.reverse_reverse]

section Break

variable {s : State} {c b : Char} {u v : Chars}

/-- A directive is told by the first character of a line. -/
theorem State.isDirective_congr (s : State) {cs ds : Chars} (h : cs.head? = ds.head?) :
    s.isDirective language cs = s.isDirective language ds := by
  unfold State.isDirective
  rw [h]

theorem State.scanLine_gap (hc : isBlank c = false) (hb : isBlank b = false)
    (hd : s.isDirective language (trim (u ++ [c] ++ ' ' :: b :: v)) = false) (number : Nat) :
    s.scanLine language tables number (u ++ [c] ++ ' ' :: b :: v) =
      s.take language tables number (indent (u ++ [c] ++ ' ' :: b :: v))
        (trimLeft u ++ [c] ++ ' ' :: b :: trimRight v) := by
  have ht := trim_gap hc hb u v
  rw [State.scanLine_read (by rw [ht]; simp) hd, ht]

theorem State.scanLine_first (hc : isBlank c = false) (hb : isBlank b = false) {mark : Chars}
    (hm : mark = [] ∨ mark = ['\\'])
    (hd : s.isDirective language (trim (u ++ [c] ++ ' ' :: b :: v)) = false) (number : Nat) :
    s.scanLine language tables number (u ++ [c] ++ mark) =
      s.take language tables number (indent (u ++ [c] ++ mark)) (trimLeft u ++ [c] ++ mark) := by
  have ht := trim_first hc hm u
  have hhead : (trimLeft u ++ [c] ++ mark).head? =
      (trim (u ++ [c] ++ ' ' :: b :: v)).head? := by
    rw [trim_gap hc hb]
    cases trimLeft u <;> rfl
  rw [State.scanLine_read (by rw [ht]; simp), ht]
  rw [ht, State.isDirective_congr s hhead]
  exact hd

theorem State.scanLine_second (hb : isBlank b = false)
    (hd : s.isDirective language (b :: trimRight v) = false) (number : Nat) :
    s.scanLine language tables number (b :: v) =
      s.take language tables number (indent (b :: v)) (b :: trimRight v) := by
  have ht : trim (b :: v) = b :: trimRight v := by rw [trim, trimLeft_cons hb, trimRight_cons hb]
  rw [State.scanLine_read (by rw [ht]; simp) (by rw [ht]; exact hd), ht]

/-- What is not a directive now is none later, while a statement is pending. -/
theorem State.isDirective_false {line : Chars} (h : s.isDirective language line = false) :
    s.inDirective = false := by
  unfold State.isDirective at h
  rw [Bool.or_eq_false_iff] at h
  exact h.1

/-- A first part that leaves the statement open. -/
theorem Same.of_open (hl : language.endsAtNewline = false) (hc : isBlank c = false)
    (hb : isBlank b = false) (hopen : c ∉ [';', '{', '}', '\\']) {mark : Chars}
    (hm : mark = [] ∨ mark = ['\\']) (hy : b :: trimRight v ≠ ['\\'])
    (hd : s.isDirective language (trim (u ++ [c] ++ ' ' :: b :: v)) = false)
    (number number' : Nat) :
    Same tables (s.scanLine language tables number (u ++ [c] ++ ' ' :: b :: v))
      ((s.scanLine language tables number (u ++ [c] ++ mark)).scanLine language tables number'
        (b :: v)) := by
  simp only [List.mem_cons, List.not_mem_nil, or_false, not_or] at hopen
  obtain ⟨hsemi, hleft, hright, hback⟩ := hopen
  have hcomp : completes language
      (Pending.add s.pending number (trimLeft u ++ [c] ++ mark))
      (trimLeft u ++ [c] ++ mark) = false := by
    unfold completes
    rcases hm with rfl | rfl
    · simp [hl, Bool.eq_false_iff, isContinued_iff, endsWith_iff, hsemi, hleft, hright, hback]
    · simp [isContinued_iff]
  rw [State.scanLine_gap hc hb hd, State.scanLine_first hc hb hm hd]
  obtain ⟨hp, hi, -⟩ := State.take_open tables (indent (u ++ [c] ++ mark)) hcomp
  have htold := State.toldWith_take_open tables (indent (u ++ [c] ++ mark)) hcomp
  rw [contents_first hc hback hm] at htold
  have hgap := contents_gap (trimLeft u ++ [c]) hb hy
  rw [State.scanLine_second hb]
  · refine Same.of_take hl (getLast?_gap _ (List.cons_ne_nil _ _)) hi.symm ?_ ?_
    · rw [hgap, htold]
    · intro text
      rw [hgap, htold]
      simp
  · unfold State.isDirective
    rw [hi, State.isDirective_false hd, hp]
    simp

/-- A first part that ends the statement with a semicolon at its top level. -/
theorem Same.of_semicolon (hl : language.endsAtNewline = false) (hb : isBlank b = false)
    (htop : (Statement.placeAfter (s.statement (trimLeft u))).atTop = true) (hhash : b ≠ '#')
    (hd : s.isDirective language (trim (u ++ [';'] ++ ' ' :: b :: v)) = false)
    (number number' : Nat) :
    Same tables (s.scanLine language tables number (u ++ [';'] ++ ' ' :: b :: v))
      ((s.scanLine language tables number (u ++ [';'])).scanLine language tables number'
        (b :: v)) := by
  have hc : isBlank ';' = false := by decide
  have hfirst : s.scanLine language tables number (u ++ [';']) =
      s.take language tables number (indent (u ++ [';'])) (trimLeft u ++ [';']) := by
    have h : s.scanLine language tables number (u ++ [';'] ++ []) = _ :=
      State.scanLine_first hc hb (.inl rfl) hd number
    rwa [List.append_nil, List.append_nil] at h
  have hcomp : completes language (Pending.add s.pending number (trimLeft u ++ [';']))
      (trimLeft u ++ [';']) = true := by
    unfold completes
    simp [hl, isContinued_iff, endsWith_iff]
  rw [State.scanLine_gap hc hb hd, hfirst]
  obtain ⟨hp, hi, -⟩ := State.take_completed tables (indent (u ++ [';'])) hcomp
  have hsemi := State.toldWith_semicolon tables htop
  have htold := State.toldWith_take_completed tables (indent (u ++ [';'])) hcomp
  have hcontents := contents_first hc (by decide) (.inl rfl) (trimLeft u)
  rw [List.append_nil] at hcontents
  rw [hcontents] at htold
  rw [State.scanLine_second hb]
  · refine Same.of_take hl (getLast?_gap _ (List.cons_ne_nil _ _)) hi.symm ?_ ?_
    · by_cases hy : b :: trimRight v = ['\\']
      · rw [hy, contents_lone hc, htold]
        exact (List.append_nil _).symm
      · rw [contents_gap _ hb hy, hsemi, gists_blank, htold]
    · intro text
      by_cases hy : b :: trimRight v = ['\\']
      · rw [hy, contents_lone hc, hsemi, gists_blank, htold]
        exact congrArg _ (gists_blank text).symm
      · rw [contents_gap _ hb hy, List.append_assoc, hsemi, List.cons_append, gists_blank, htold]
  · unfold State.isDirective
    rw [hi, State.isDirective_false hd]
    simp [hhash]

end Break

theorem lines_gap {s t u v : Chars} {before after : List Chars} (hs : lines s = before ++ [u])
    (ht : lines t = v :: after) : lines (s ++ ' ' :: t) = before ++ (u ++ ' ' :: v) :: after := by
  have hspace : lines (' ' :: t) = (' ' :: v) :: after := by
    rw [lines_cons, ht]
    rfl
  exact lines_append hs hspace

theorem lines_broken {s t u v : Chars} {before after : List Chars} {mark : Chars}
    (hm : mark = [] ∨ mark = ['\\']) (hs : lines s = before ++ [u]) (ht : lines t = v :: after) :
    lines (s ++ (mark ++ '\n' :: t)) = before ++ (u ++ mark) :: v :: after := by
  have hbreak : lines (mark ++ '\n' :: t) = mark :: v :: after := by
    rcases hm with rfl | rfl
    · rw [List.nil_append, lines_cons, ht]
      rfl
    · rw [List.singleton_append, lines_cons, lines_cons, ht]
      rfl
  exact lines_append hs hbreak

/-- Scans that are the same after a line and after its two parts find the same in the end. -/
theorem extract_gist_broken (hl : language.endsAtNewline = false) {s t u v mark : Chars}
    {before after : List Chars} (hm : mark = [] ∨ mark = ['\\']) (hs : lines s = before ++ [u])
    (ht : lines t = v :: after)
    (h : ∀ number, Same tables
      ((scanLines language tables {} 1 before).scanLine language tables number (u ++ ' ' :: v))
      (((scanLines language tables {} 1 before).scanLine language tables number
        (u ++ mark)).scanLine language tables (number + 1) v)) :
    (extract language tables (String.ofList (s ++ (mark ++ '\n' :: t)))).map Event.gist =
      (extract language tables (String.ofList (s ++ ' ' :: t))).map Event.gist := by
  rw [extract_gist, extract_gist, String.toList_ofList, String.toList_ofList, lines_gap hs ht,
    lines_broken hm hs ht, scanLines_append, scanLines_append]
  exact ((h _).scanLines hl _ _ after).told.symm

/-- Where lines do not end statements, a space between tokens may become a line break, with or
without a mark of continuation, if the text before it does not end a line's statement and the text
after it is not such a mark alone; and a line break, if the text before it ends in a semicolon that
ends a segment and the text after it does not look like a directive. -/
theorem extract_line_break (language : Language) (tables : Tables)
    (hl : language.endsAtNewline = false) (s t : Chars) (before : List Chars) (u v : Chars)
    (after : List Chars) (g : Gap language tables s t before u v after) :
    (u.getLast? ∉ [some ';', some '{', some '}', some '\\'] → trim v ≠ ['\\'] →
      ∀ mark, mark = [] ∨ mark = ['\\'] →
        (extract language tables (String.ofList (s ++ (mark ++ '\n' :: t)))).map Event.gist =
          (extract language tables (String.ofList (s ++ ' ' :: t))).map Event.gist) ∧
    (u.getLast? = some ';' →
      (Statement.placeAfter
        ((scanLines language tables {} 1 before).statement (trim u).dropLast)).atTop = true →
      v.head? ≠ some '#' →
        (extract language tables (String.ofList (s ++ '\n' :: t))).map Event.gist =
          (extract language tables (String.ofList (s ++ ' ' :: t))).map Event.gist) := by
  obtain ⟨c, hlast, hc⟩ := g.left
  obtain ⟨b, hhead, hb⟩ := g.right
  obtain ⟨u, rfl⟩ := List.getLast?_eq_some_iff.mp hlast
  obtain ⟨v, rfl⟩ := List.head?_eq_some_iff.mp hhead
  refine ⟨?_, ?_⟩
  · intro hopen hlone mark hm
    have hy : b :: trimRight v ≠ ['\\'] := by
      rwa [trim, trimLeft_cons hb, trimRight_cons hb] at hlone
    have hmem : c ∉ [';', '{', '}', '\\'] := by simpa using hopen
    exact extract_gist_broken hl hm g.above g.below fun number =>
      Same.of_open hl hc hb hmem hm hy g.read number (number + 1)
  · intro hsemi htop hhash
    rw [List.getLast?_concat, Option.some.injEq] at hsemi
    subst hsemi
    have htrim := trim_first hc (.inl rfl) u
    rw [List.append_nil, List.append_nil] at htrim
    rw [htrim, List.dropLast_concat] at htop
    have hne : b ≠ '#' := fun he => hhash (by rw [he]; rfl)
    have hsame : ∀ number, Same tables
        ((scanLines language tables {} 1 before).scanLine language tables number
          (u ++ [';'] ++ ' ' :: b :: v))
        (((scanLines language tables {} 1 before).scanLine language tables number
          (u ++ [';'] ++ [])).scanLine language tables (number + 1) (b :: v)) := by
      intro number
      rw [List.append_nil]
      exact Same.of_semicolon hl hb htop hne g.read number (number + 1)
    have hbroken := extract_gist_broken hl (.inl rfl) g.above g.below hsame
    exact hbroken

/-- The call may stand on a line of its own, and so may the release after it. -/
theorem extract_line_break_call :
    Gap .c {} "int *p =".toList "malloc(8); free(p);".toList [] "int *p =".toList
        "malloc(8); free(p);".toList [] ∧
      (extract .c {} "int *p =\\\nmalloc(8); free(p);").map Event.gist =
        (extract .c {} "int *p = malloc(8); free(p);").map Event.gist ∧
      Gap .c {} "int *p = malloc(8);".toList "free(p);".toList [] "int *p = malloc(8);".toList
        "free(p);".toList [] ∧
      (extract .c {} "int *p = malloc(8);\nfree(p);").map Event.gist =
        (extract .c {} "int *p = malloc(8); free(p);").map Event.gist := by
  have hcall : Gap .c {} "int *p =".toList "malloc(8); free(p);".toList [] "int *p =".toList
      "malloc(8); free(p);".toList [] :=
    ⟨by decide, by decide, ⟨'=', by decide, by decide⟩, ⟨'m', by decide, by decide⟩, by decide⟩
  have hrelease : Gap .c {} "int *p = malloc(8);".toList "free(p);".toList []
      "int *p = malloc(8);".toList "free(p);".toList [] :=
    ⟨by decide, by decide, ⟨';', by decide, by decide⟩, ⟨'f', by decide, by decide⟩, by decide⟩
  refine ⟨hcall, ?_, hrelease, ?_⟩
  · exact (extract_line_break .c {} rfl _ _ _ _ _ _ hcall).1 (by decide) (by decide) ['\\']
      (.inr rfl)
  · exact (extract_line_break .c {} rfl _ _ _ _ _ _ hrelease).2 (by decide) (by decide)
      (by decide)

/-- A mark of continuation alone on its line is an empty part of the statement, with a space on
either side of it: the arguments of the call get one space more. -/
theorem lone_mark_adds_space :
    Gap .c {} "p = malloc(10 +".toList "\\\n20);".toList [] "p = malloc(10 +".toList ['\\']
        ["20);".toList] ∧
      "p = malloc(10 +".toList.getLast? ∉ [some ';', some '{', some '}', some '\\'] ∧
      (extract .c {} "p = malloc(10 +\n\\\n20);").map Event.gist ≠
        (extract .c {} "p = malloc(10 + \\\n20);").map Event.gist := by
  refine ⟨⟨by decide, by decide, ⟨'+', by decide, by decide⟩, ⟨'\\', by decide, by decide⟩,
    by decide⟩, by decide, ?_⟩
  intro h
  have hshown := congrArg (List.map fun g => g.2.2.2.1.shown) h
  revert hshown
  decide +kernel

end LineScan

end HeapAudit
