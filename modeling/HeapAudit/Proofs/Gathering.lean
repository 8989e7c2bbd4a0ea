import HeapAudit.Proofs.Layout
import HeapAudit.Proofs.LineBreaks

namespace HeapAudit

/-- An event on a line: the number is that of the line, and the text is the line without the blanks
at its ends. -/
def Event.At (ls : List Text.Chars) (e : Event) : Prop :=
  ∃ (n : Nat) (line : Text.Chars), ls[n]? = some line ∧ e.line = some (n + 1 : Int) ∧
    e.lineText = String.ofList (Text.trim line)

namespace Statement
open Text

theorem bracketBalance_append (cs ds : Chars) :
    bracketBalance (cs ++ ds) = bracketBalance cs + bracketBalance ds := by
  unfold bracketBalance
  simp only [List.count_append]
  omega

/-- The spaces between the parts of a statement do not count. -/
theorem bracketBalance_concat (parts : List Chars) (last : Chars) :
    bracketBalance (joinWith [' '] (parts ++ [last])) =
      bracketBalance (joinWith [' '] parts) + bracketBalance last := by
  have hspace : bracketBalance [' '] = 0 := rfl
  rw [LineScan.joinWith_concat, bracketBalance_append]
  congr 1
  induction parts using List.reverseRecOn with
  | nil => rfl
  | append_singleton parts part ih =>
    rw [LineScan.joinWith_concat, List.flatMap_append, bracketBalance_append,
      bracketBalance_append]
    simp [bracketBalance_append, hspace]

end Statement

namespace LineScan
open Text

variable {language : Language} {tables : Tables}

/-- The text of some lines as one statement. -/
def statementOf (ls : List (Nat × Chars)) : Chars := joinWith [' '] (ls.map fun l => contents l.2)

/-- Whether the last of some lines completes their statement: it is not to be continued, and all
brackets are closed or, where lines do not end statements, a semicolon or a brace is at its end. -/
def isWhole (language : Language) (ls : List (Nat × Chars)) : Bool :=
  match ls.getLast? with
  | none => false
  | some (_, line) =>
    if isContinued line then false
    else if language.endsAtNewline then Statement.bracketBalance (statementOf ls) ≤ 0
    else endsWith [';'] line || endsWith ['{'] line || endsWith ['}'] line

/-- The lines of statements, among lines that are not blank, given the lines of the statement that
is open. A directive is passed over with the lines that continue it; inside a statement a line is no
directive, whatever it starts with. -/
def statementLines (language : Language) :
    (directive : Bool) → (opened : List (Nat × Chars)) → List (Nat × Chars) → List (Nat × Chars)
  | _, _, [] => []
  | directive, opened, l :: rest =>
    if directive || (language.hasDirectives && l.2.head? == some '#' && opened.isEmpty) then
      statementLines language (isContinued l.2) opened rest
    else
      let opened := opened ++ [l]
      l :: statementLines language false (if isWhole language opened then [] else opened) rest

/-- The lines of a statement, and the scopes around it when it is matched. -/
structure Group where
  first : Nat × Chars
  more : List (Nat × Chars)
  scopes : List Scope

namespace Group

def lines (g : Group) : List (Nat × Chars) := g.first :: g.more

/-- What the segments of the statement give. -/
def events (tables : Tables) (g : Group) : List Event :=
  (Statement.segments (statementOf g.lines)).flatMap
    (segmentEvents tables g.scopes g.first.1 g.first.2)

end Group

/-- The pending statement of some lines. -/
def gathered : List (Nat × Chars) → Option Pending
  | [] => none
  | l :: more => some
    { parts := (l :: more).map fun l => contents l.2
      balance := Statement.bracketBalance (statementOf (l :: more))
      line := l.1
      head := l.2 }

section Gathered

variable (ls : List (Nat × Chars)) (number : Nat) (line : Chars)

theorem bracketBalance_statementOf :
    Statement.bracketBalance (statementOf (ls ++ [(number, line)])) =
      Statement.bracketBalance (statementOf ls) + Statement.bracketBalance (contents line) := by
  unfold statementOf
  rw [List.map_append, List.map_singleton, Statement.bracketBalance_concat]

/-- A line more is added to the statement. -/
theorem gathered_concat :
    gathered (ls ++ [(number, line)]) = some (Pending.add (gathered ls) number line) := by
  have hbalance := bracketBalance_statementOf ls number line
  cases ls with
  | nil =>
    have hnil : Statement.bracketBalance (statementOf []) = 0 := rfl
    rw [List.nil_append, hnil, Int.zero_add] at hbalance
    simp [gathered, Pending.add, hbalance]
  | cons l more =>
    rw [List.cons_append] at hbalance
    simp [gathered, Pending.add, hbalance]

theorem gathered_isNone : (gathered ls).isNone = ls.isEmpty := by
  cases ls with
  | nil => rfl
  | cons l more => rfl

theorem gathered_balance {p : Pending} (h : gathered ls = some p) :
    p.balance = Statement.bracketBalance (statementOf ls) := by
  cases ls with
  | nil => cases h
  | cons l more =>
    cases h
    rfl

theorem completes_gathered (language : Language) :
    completes language (Pending.add (gathered ls) number line) line =
      isWhole language (ls ++ [(number, line)]) := by
  have hbalance := gathered_balance _ (gathered_concat ls number line)
  unfold completes isWhole
  rw [hbalance, List.getLast?_concat]

end Gathered

theorem Group.events_gathered {g : Group} {p : Pending} (h : gathered g.lines = some p) :
    p.events tables g.scopes = g.events tables := by
  cases h
  rfl

theorem exists_group {ls : List (Nat × Chars)} (h : ls ≠ []) (scopes : List Scope) :
    ∃ g : Group, g.lines = ls ∧ g.scopes = scopes := by
  obtain ⟨first, more, rfl⟩ := List.exists_cons_of_ne_nil h
  exact ⟨⟨first, more, scopes⟩, rfl, rfl⟩

/-- No line before the last of some lines completes their statement. -/
def Unbroken (language : Language) (ls : List (Nat × Chars)) : Prop :=
  ∀ before, before <+: ls → before ≠ ls → isWhole language before = false

/-- A scan of some lines: those of the statements it has matched, and those of the statement that is
pending. -/
structure State.Gathers (language : Language) (tables : Tables) (read : List (Nat × Chars))
    (groups : List Group) (opened : List (Nat × Chars)) (s : State) : Prop where
  lines : groups.flatMap Group.lines ++ opened = read
  events : s.events = groups.flatMap (Group.events tables)
  pending : s.pending = gathered opened
  whole : ∀ g ∈ groups, isWhole language g.lines = true
  unbroken : ∀ g ∈ groups, Unbroken language g.lines
  unfinished : ∀ before, before <+: opened → isWhole language before = false

section Scan

variable {read opened : List (Nat × Chars)} {groups : List Group} {s : State} {number : Nat}
  {line : Chars}

theorem unfinished_nil (language : Language) :
    ∀ before, before <+: [] → isWhole language before = false := by
  intro before h
  rw [List.prefix_nil.mp h]
  rfl

theorem State.Gathers.unbroken_concat (h : s.Gathers language tables read groups opened)
    (l : Nat × Chars) : Unbroken language (opened ++ [l]) := by
  intro before hp hne
  rcases List.prefix_concat_iff.mp hp with he | hp
  · exact absurd he hne
  · exact h.unfinished before hp

/-- A line of a directive changes neither the groups nor the pending statement. -/
theorem State.Gathers.skipped (h : s.Gathers language tables read groups opened)
    (directive : Bool) :
    State.Gathers language tables read groups opened { s with inDirective := directive } :=
  ⟨h.lines, h.events, h.pending, h.whole, h.unbroken, h.unfinished⟩

/-- Any other line goes on with the pending statement, and ends the group if it completes it. -/
theorem State.Gathers.taken (h : s.Gathers language tables read groups opened)
    (number indentation : Nat) (line : Chars) :
    ∃ groups', (s.take language tables number indentation line).Gathers language tables
      (read ++ [(number, line)]) groups'
      (if isWhole language (opened ++ [(number, line)]) then []
        else opened ++ [(number, line)]) := by
  have hadd := gathered_concat opened number line
  have hwhole := completes_gathered opened number line language
  rw [← h.pending] at hadd hwhole
  rw [← hwhole]
  cases hc : completes language (Pending.add s.pending number line) line with
  | true =>
    obtain ⟨hp, -, scopes, he⟩ := State.take_completed tables indentation hc
    obtain ⟨g, hlines, rfl⟩ := exists_group (List.concat_ne_nil (number, line) opened) scopes
    rw [← hlines] at hadd hwhole
    rw [if_pos rfl]
    refine ⟨groups ++ [g], ?_, ?_, hp, ?_, ?_, unfinished_nil language⟩
    · rw [List.flatMap_append, List.flatMap_singleton, hlines, List.append_nil,
        ← List.append_assoc, h.lines]
    · rw [he, h.events, Group.events_gathered hadd, List.flatMap_append, List.flatMap_singleton]
    · rw [List.forall_mem_append, List.forall_mem_singleton, ← hwhole]
      exact ⟨h.whole, hc⟩
    · rw [List.forall_mem_append, List.forall_mem_singleton, hlines]
      exact ⟨h.unbroken, h.unbroken_concat _⟩
  | false =>
    obtain ⟨hp, -, he⟩ := State.take_open tables indentation hc
    rw [if_neg (by simp)]
    refine ⟨groups, ?_, ?_, ?_, h.whole, h.unbroken, ?_⟩
    · rw [← List.append_assoc, h.lines]
    · rw [he, h.events]
    · rw [hp, hadd]
    · intro before hb
      rcases List.prefix_concat_iff.mp hb with rfl | hb
      · rw [← hwhole, hc]
      · exact h.unfinished before hb

theorem State.Gathers.isDirective (h : s.Gathers language tables read groups opened)
    (line : Chars) :
    s.isDirective language line =
      (s.inDirective || (language.hasDirectives && line.head? == some '#' && opened.isEmpty)) := by
  rw [State.isDirective, h.pending, gathered_isNone]

theorem State.Gathers.scanLines (h : s.Gathers language tables read groups opened) (number : Nat)
    (below : List Chars) :
    ∃ groups' opened', (LineScan.scanLines language tables s number below).Gathers language tables
      (read ++ statementLines language s.inDirective opened (inkedLines number below))
      groups' opened' := by
  induction below generalizing s read groups opened number with
  | nil =>
    rw [inkedLines, statementLines, List.append_nil]
    exact ⟨groups, opened, h⟩
  | cons line below ih =>
    rw [LineScan.scanLines]
    by_cases hn : trim line = []
    · rw [inkedLines_blank hn, State.scanLine_blank hn]
      exact ih h (number + 1)
    · rw [inkedLines_inked hn, statementLines, ← h.isDirective]
      cases hd : s.isDirective language (trim line) with
      | true =>
        rw [State.scanLine_directive hn hd, if_pos rfl]
        exact ih (h.skipped _) (number + 1)
      | false =>
        have hkept : (s.take language tables number (indent line) (trim line)).inDirective =
            s.inDirective := by
          rw [State.take_eq]
        obtain ⟨groups', hline⟩ := h.taken number (indent line) (trim line)
        have hrest := ih hline (number + 1)
        rw [hkept, State.isDirective_false hd, List.append_assoc] at hrest
        rw [State.scanLine_read hn hd, if_neg (by simp)]
        exact hrest

end Scan

/-- Lines parted into statements: all of them, in order; every statement but the last is complete
with its last line, and none is complete before it. -/
structure Parted (language : Language) (read : List (Nat × Chars)) (groups : List Group) :
    Prop where
  lines : groups.flatMap Group.lines = read
  whole : ∀ g ∈ groups.dropLast, isWhole language g.lines = true
  unbroken : ∀ g ∈ groups, Unbroken language g.lines

/-- At the end of a source the pending statement is one more group. -/
theorem State.Gathers.flush {read opened : List (Nat × Chars)} {groups : List Group} {s : State}
    (h : s.Gathers language tables read groups opened) :
    ∃ groups', Parted language read groups' ∧
      (s.flush tables).events = groups'.flatMap (Group.events tables) := by
  unfold State.flush
  cases opened with
  | nil =>
    rw [h.pending, gathered]
    refine ⟨groups, ⟨?_, ?_, h.unbroken⟩, h.events⟩
    · rw [← h.lines, List.append_nil]
    · intro g hg
      exact h.whole g (List.mem_of_mem_dropLast hg)
  | cons first more =>
    obtain ⟨g, hlines, hscopes⟩ := exists_group (List.cons_ne_nil first more) s.scopes
    rw [← hlines] at h
    obtain ⟨p, hp⟩ : ∃ p, gathered g.lines = some p := ⟨_, rfl⟩
    rw [h.pending, hp]
    refine ⟨groups ++ [g], ⟨?_, ?_, ?_⟩, ?_⟩
    · rw [List.flatMap_append, List.flatMap_singleton, h.lines]
    · rw [List.dropLast_concat]
      exact h.whole
    · rw [List.forall_mem_append, List.forall_mem_singleton]
      exact ⟨h.unbroken, fun before hb _ => h.unfinished before hb⟩
    · have hlast : p.events tables s.scopes = g.events tables := by
        rw [← hscopes]
        exact Group.events_gathered hp
      simp only [h.events, hlast, List.flatMap_append, List.flatMap_singleton]

section Order

variable {read : List (Nat × Chars)} {groups : List Group}

end Order

theorem extract_at (language : Language) (tables : Tables) (source : String) :
    ∀ e ∈ extract language tables source, e.At (lines source.toList) := by
  intro e he
  obtain ⟨l, hl, hline, htext⟩ := extract_located language tables source e he
  obtain ⟨n, line, hget, rfl⟩ := mem_inkedLines hl
  refine ⟨n, line, hget, ?_, htext⟩
  rw [hline]
  push_cast
  rw [add_comm]

end LineScan

end HeapAudit
