import HeapAudit.Proofs.Assignments
import HeapAudit.Proofs.ScopeStack

namespace HeapAudit
open Text

namespace Text

/-- A text starts with what is left by trimming, and ends with it, but for blanks. -/
theorem exists_blanks_around (cs : Chars) :
    ∃ lead trail, (∀ c ∈ lead, isBlank c = true) ∧ (∀ c ∈ trail, isBlank c = true) ∧
      cs = lead ++ trim cs ++ trail := by
  obtain ⟨lead, hlead, hleft⟩ := exists_blanks cs
  obtain ⟨trail, htrail, hright⟩ := exists_blanks_after (trimLeft cs)
  refine ⟨lead, trail, hlead, htrail, ?_⟩
  rw [List.append_assoc, trim, ← hright, ← hleft]

/-- Trimming keeps the last character of a text that is not blank. -/
theorem getLast?_trimLeft {cs : Chars} (h : Inked cs) : (trimLeft cs).getLast? = cs.getLast? := by
  obtain ⟨gap, -, hsplit⟩ := exists_blanks cs
  conv_rhs => rw [hsplit]
  rw [List.getLast?_append_of_ne_nil _ (trimLeft_ne_nil h)]

/-- What is left after the longest word does not go on with it. -/
theorem word?_rest {cs word rest : Chars} (h : word? cs = some (word, rest)) :
    notWord rest.head? = true := by
  unfold word? run? at h
  split at h
  · cases h
  · cases h
    have hhead := List.head?_dropWhile_not isWord cs
    cases hd : (cs.dropWhile isWord).head? with
    | none => rfl
    | some c =>
      rw [hd] at hhead
      simpa [notWord] using hhead

end Text

namespace Heading

/-- One of some words is written before an opening bracket, with nothing but blanks between them,
and no longer word ends with it. -/
def Opens (words : List String) (bracket : Char) (cs : Chars) : Prop :=
  ∃ before word gap after, word ∈ words ∧ notWord before.getLast? = true ∧
    (∀ c ∈ gap, isBlank c = true) ∧ cs = before ++ word.toList ++ gap ++ bracket :: after

section Opens

variable {words : List String} {bracket : Char} {cs : Chars} (hb : isBlank bracket = false)

include hb

theorem anyOpens_of_opens (h : Opens words bracket cs) : anyOpens words bracket cs = true := by
  obtain ⟨before, word, gap, after, hw, hbefore, hg, rfl⟩ := h
  have hread :
      opens? word.toList bracket (word.toList ++ (gap ++ bracket :: after)) = some after := by
    simp [opens?, literal?, trimLeft_blanks_cons hg hb, char?]
  rw [List.append_assoc, List.append_assoc]
  apply search_isSome
  · simpa using hbefore
  · rw [List.findSome?_isSome_iff]
    exact ⟨word, hw, by simp [hread]⟩

/-- Trimming keeps it. -/
theorem Opens.trim (hw : ∀ word ∈ words, IsName word.toList) (h : Opens words bracket cs) :
    Opens words bracket (trim cs) := by
  obtain ⟨before, word, gap, after, hword, hbefore, hg, rfl⟩ := h
  obtain ⟨start, hstart, hleft⟩ : ∃ start, notWord start.getLast? = true ∧
      trimLeft (before ++ word.toList ++ gap ++ bracket :: after) =
        start ++ word.toList ++ gap ++ bracket :: after := by
    simp only [List.append_assoc]
    by_cases hin : Inked before
    · refine ⟨trimLeft before, ?_, trimLeft_append hin _⟩
      rwa [getLast?_trimLeft hin]
    · refine ⟨[], rfl, ?_⟩
      rw [trimLeft_blanks (blank_of_not_inked hin), (hw word hword).trimLeft_append]
      rfl
  refine ⟨start, word, gap, trimRight after, hword, hstart, hg, ?_⟩
  rw [Text.trim, hleft, trimRight_append (inked_cons hb after), trimRight_cons hb]

end Opens

/-- A name before an opening parenthesis: a whole word that may name a function. -/
structure NamedAt (line before name : Chars) : Prop where
  whole : IsName name
  starts : notWord before.getLast? = true
  opens : ∃ gap after, (∀ c ∈ gap, isBlank c = true) ∧ line = before ++ name ++ gap ++ '(' :: after
  word : String.ofList name ∉ notNames

theorem lastWord?_some {cs before name : Chars} (h : lastWord? cs = some (before, name)) :
    IsName name ∧ notWord before.getLast? = true ∧
      ∃ gap, (∀ c ∈ gap, isBlank c = true) ∧ cs = before ++ name ++ gap := by
  unfold lastWord? at h
  split at h
  · rename_i word rest hw
    cases h
    obtain ⟨hname, hsplit⟩ := word?_some hw
    obtain ⟨gap, hg, hcs⟩ := exists_blanks cs.reverse
    refine ⟨⟨by simpa using hname.1, fun c hc => hname.2 c (List.mem_reverse.mp hc)⟩, ?_,
      gap.reverse, fun c hc => hg c (List.mem_reverse.mp hc), ?_⟩
    · rw [List.getLast?_reverse]
      exact word?_rest hw
    · have hback := congrArg List.reverse hcs
      rw [List.reverse_reverse, show trimLeft cs.reverse = word ++ rest from hsplit] at hback
      simpa using hback
  · cases h

theorem named?_some {cs before name : Chars} (h : named? cs = some (before, name)) :
    NamedAt cs before name := by
  simp only [named?, Option.bind_eq_bind, Option.bind_eq_some_iff] at h
  obtain ⟨rest, hopen, ⟨start, word⟩, hlast, hkept⟩ := h
  dsimp only at hkept
  split at hkept
  · cases hkept
  · rename_i hword
    cases hkept
    obtain ⟨hname, hstart, gap, hg, hsplit⟩ := lastWord?_some hlast
    refine ⟨hname, hstart, ⟨gap, rest, hg, ?_⟩, ?_⟩
    · rw [← hsplit, ← char?_some hopen, List.takeWhile_append_dropWhile]
    · intro hm
      exact hword (by simp [hm])

theorem namedAfterGroup?_some {cs before name : Chars}
    (h : namedAfterGroup? cs = some (before, name)) : NamedAt cs before name := by
  simp only [namedAfterGroup?, Option.bind_eq_bind, Option.bind_eq_some_iff] at h
  obtain ⟨rest, hopen, after, hclose, ⟨start, word⟩, hnamed, hkept⟩ := h
  cases hkept
  obtain ⟨hname, hstart, ⟨gap, tail, hg, hsplit⟩, hword⟩ := named?_some hnamed
  refine ⟨hname, ?_, ⟨gap, tail, hg, ?_⟩, hword⟩
  · rw [List.getLast?_append_of_ne_nil _ (List.cons_ne_nil _ _), List.getLast?_cons]
    cases hl : start.getLast? with
    | none => decide
    | some c => simpa [hl] using hstart
  · have hrest : rest = rest.takeWhile (fun c => c != '(' && c != ')') ++ ')' :: after := by
      rw [← char?_some hclose, List.takeWhile_append_dropWhile]
    have hcs : cs = cs.takeWhile isPlainChar ++ '(' :: rest := by
      rw [← char?_some hopen, List.takeWhile_append_dropWhile]
    rw [hsplit] at hrest
    simp only [List.append_assoc, List.cons_append] at hrest ⊢
    rw [← hrest, ← hcs]

/-- What stands before the name of a definition is not blank. -/
theorem inked_of_introduces {before : Chars} (h : introduces before = true) : Inked before := by
  by_contra hin
  have htrim : trim before = [] := by
    rw [trim, trimLeft, List.dropWhile_eq_nil_iff.mpr (blank_of_not_inked hin)]
    rfl
  rw [introduces, htrim] at h
  cases h

theorem functionName?_some {line name : Chars} (h : functionName? line = some name) :
    ';' ∉ line ∧ isControl line = false ∧ ∃ before, Inked before ∧ NamedAt line before name := by
  unfold functionName? at h
  split at h
  · cases h
  · rename_i hline
    simp only [Bool.or_eq_true, List.contains_iff_mem, not_or, Bool.not_eq_true] at hline
    split at h
    · rename_i before word hnamed
      split at h
      · rename_i hbefore
        cases h
        refine ⟨hline.1, hline.2, before, inked_of_introduces hbefore, ?_⟩
        cases hfirst : named? line with
        | some found =>
          rw [hfirst] at hnamed
          cases hnamed
          exact named?_some hfirst
        | none =>
          rw [hfirst] at hnamed
          exact namedAfterGroup?_some hnamed
      · cases h
    · cases h

/-- A line on which a function is defined, and its name: a whole word with text before it and an
opening parenthesis after it, which is none of the words that name no function. The line has no
semicolon and no head of a control structure. -/
structure Defines (line name : Chars) : Prop where
  semicolon : ';' ∉ line
  control : ¬ Opens ["if", "while", "for", "switch"] '(' line
  whole : IsName name
  place : ∃ before gap after, line = before ++ name ++ (gap ++ '(' :: after) ∧ Inked before ∧
    notWord before.getLast? = true ∧ (∀ c ∈ gap, isBlank c = true) ∧
    notWord (gap ++ '(' :: after).head? = true
  keyword : String.ofList name ∉ ["func", "function", "fn", "def", "if", "while", "for", "switch",
    "catch", "return", "sizeof", "elif", "with"]

/-- What is found on a trimmed line is defined on the line. -/
theorem defines_of_functionName? {line name : Chars} (h : functionName? (trim line) = some name) :
    Defines line name := by
  obtain ⟨hsemicolon, hcontrol, before, hin, hname, hstart, ⟨gap, after, hg, hsplit⟩, hword⟩ :=
    functionName?_some h
  obtain ⟨lead, trail, -, -, hline⟩ := exists_blanks_around line
  refine ⟨fun hm => hsemicolon (mem_trim (by decide) hm), ?_, hname,
    ⟨lead ++ before, gap, after ++ trail, ?_, ?_, ?_, hg, ?_⟩, hword⟩
  · intro hopens
    have hnames : ∀ word ∈ ["if", "while", "for", "switch"], IsName word.toList := by decide +kernel
    have hfound := anyOpens_of_opens (by decide) (hopens.trim (by decide) hnames)
    rw [show anyOpens _ _ _ = false from hcontrol] at hfound
    cases hfound
  · rw [hline, hsplit]
    simp
  · obtain ⟨c, hc, hb⟩ := hin
    exact ⟨c, List.mem_append_right _ hc, hb⟩
  · have hne : before ≠ [] := by
      obtain ⟨c, hc, -⟩ := hin
      exact List.ne_nil_of_mem hc
    rwa [List.getLast?_append_of_ne_nil _ hne]
  · cases hd : (gap ++ '(' :: (after ++ trail)).head? with
    | none => rfl
    | some c =>
      have hc : isWord c = false :=
        head_blanks hg (fun _ => isWord_of_isBlank) (by decide) hd
      simp [notWord, hc]

end Heading

/-- A function that is defined on one of some lines. -/
def DefinedOn (ls : List Chars) (function : String) : Prop :=
  ∃ line ∈ ls, ∃ name, Heading.Defines line name ∧ function = String.ofList name

namespace Scope

theorem mem_openHeads {level : Int} {line : Chars} {scopes : List Scope} {scope : Scope}
    (h : scope ∈ openHeads level line scopes) {function : String}
    (hk : scope.kind = .function function) :
    scope ∈ scopes ∨ ∃ name, Heading.functionName? line = some name ∧
      function = String.ofList name := by
  have hloop : ∀ inner : List Scope,
      scope ∈ (if Heading.isLoop line then { kind := .loop, level : Scope } :: inner else inner) →
        scope ∈ inner := by
    intro inner hin
    split at hin
    · rcases List.mem_cons.mp hin with rfl | hin
      · cases hk
      · exact hin
    · exact hin
  have hscopes := hloop _ h
  cases hf : Heading.functionName? line with
  | none =>
    rw [hf] at hscopes
    exact .inl hscopes
  | some name =>
    rw [hf] at hscopes
    rcases List.mem_cons.mp hscopes with rfl | hscopes
    · cases hk
      exact .inr ⟨name, rfl, rfl⟩
    · exact .inl hscopes

theorem markBraced_kind {mark : Int} {scopes : List Scope} :
    ∀ scope ∈ markBraced mark scopes, ∃ old ∈ scopes, old.kind = scope.kind := by
  intro scope hm
  obtain ⟨old, ho, rfl⟩ := List.mem_map.mp hm
  refine ⟨old, ho, ?_⟩
  split <;> rfl

theorem function?_some {scopes : List Scope} {function : String}
    (h : function? scopes = some function) : ∃ scope ∈ scopes, scope.kind = .function function := by
  obtain ⟨scope, hm, hs⟩ := List.exists_of_findSome?_eq_some h
  refine ⟨scope, hm, ?_⟩
  split at hs
  · rename_i hk
    cases hs
    exact hk
  · cases hs

end Scope

namespace LineScan

/-- All functions that a scan knows of are defined on some lines. -/
structure State.Named (ls : List Chars) (s : State) : Prop where
  scopes : ∀ scope ∈ s.scopes, ∀ function, scope.kind = .function function → DefinedOn ls function
  events : ∀ e ∈ s.events, ∀ function, e.function = some function → DefinedOn ls function

section Named

variable {language : Language} {tables : Tables} {ls : List Chars} {s : State}

theorem Pending.events_named {p : Pending} {scopes : List Scope}
    (h : ∀ scope ∈ scopes, ∀ function, scope.kind = .function function → DefinedOn ls function) :
    ∀ e ∈ p.events tables scopes, ∀ function, e.function = some function →
      DefinedOn ls function := by
  intro e he function hf
  obtain ⟨-, htold, -⟩ := Pending.events_told e he
  obtain ⟨scope, hm, hk⟩ := Scope.function?_some (htold.symm.trans hf)
  exact h scope hm function hk

theorem State.Named.around (h : s.Named ls) (language : Language) (indentation : Nat)
    {line : Chars} (hl : line ∈ ls) :
    ∀ scope ∈ s.around language indentation (trim line), ∀ function,
      scope.kind = .function function → DefinedOn ls function := by
  have hheads : ∀ level scopes, (∀ scope ∈ scopes, scope ∈ s.scopes) →
      ∀ scope ∈ Scope.openHeads level (trim line) scopes, ∀ function,
        scope.kind = .function function → DefinedOn ls function := by
    intro level scopes hsub scope hm function hk
    rcases Scope.mem_openHeads hm hk with hold | ⟨name, hname, rfl⟩
    · exact h.scopes scope (hsub scope hold) function hk
    · exact ⟨line, hl, name, Heading.defines_of_functionName? hname, rfl⟩
  intro scope hm function hk
  unfold State.around at hm
  split at hm
  · refine hheads _ _ ?_ scope hm function hk
    intro old ho
    split at ho
    · exact (List.dropWhile_suffix _).subset ho
    · exact ho
  · obtain ⟨old, ho, hold⟩ := Scope.markBraced_kind scope hm
    exact hheads _ _ (fun _ => id) old ho function (hold.trans hk)

theorem State.Named.scanLine (h : s.Named ls) (number : Nat) {line : Chars} (hl : line ∈ ls) :
    (s.scanLine language tables number line).Named ls := by
  cases hk : s.skips language line with
  | true =>
    rw [State.scanLine_skipped hk]
    exact ⟨h.scopes, h.events⟩
  | false =>
    have haround := h.around language (indent line) hl
    rw [State.scanLine_taken hk]
    refine ⟨fun scope hm => haround scope ((State.take_suffix ..).subset hm), ?_⟩
    rw [State.take_eq]
    intro e he
    rcases List.mem_append.mp he with he | he
    · exact h.events e he
    · split at he
      · exact Pending.events_named haround e he
      · cases he

theorem State.Named.scanLines (h : s.Named ls) (language : Language) (tables : Tables)
    (number : Nat) {below : List Chars} (hl : ∀ line ∈ below, line ∈ ls) :
    (LineScan.scanLines language tables s number below).Named ls := by
  induction below generalizing s number with
  | nil => exact h
  | cons line below ih =>
    obtain ⟨hline, hbelow⟩ := List.forall_mem_cons.mp hl
    exact ih (h.scanLine number hline) _ hbelow

end Named

/-- In every language, an event is told in no function, or in one that is defined on a line of the
source. -/
theorem extract_function (language : Language) (tables : Tables) (source : String) :
    ∀ e ∈ extract language tables source, e.function = none ∨
      ∃ line ∈ lines source.toList, ∃ name,
        Heading.Defines line name ∧ e.function = some (String.ofList name) := by
  have hstart : State.Named (lines source.toList) {} := ⟨by simp, by simp⟩
  have hscan := hstart.scanLines language tables 1 fun _ => id
  have hall : ∀ e ∈ extract language tables source, ∀ function, e.function = some function →
      DefinedOn (lines source.toList) function := by
    intro e he
    unfold extract State.flush at he
    split at he
    · rcases List.mem_append.mp he with he | he
      · exact hscan.events e he
      · exact Pending.events_named hscan.scopes e he
    · exact hscan.events e he
  intro e he
  cases hf : e.function with
  | none => exact .inl rfl
  | some function =>
    obtain ⟨line, hline, name, hdefines, rfl⟩ := hall e he function hf
    exact .inr ⟨line, hline, name, hdefines, rfl⟩

/-- A method, whose name comes after a group in parentheses. -/
def methodSource : String :=
  "func (s *Pool) grow(n int) \x7b\n  while (more(n)) \x7b\n    p = malloc(n);\n  \x7d\n\x7d"

/-- Neither the word before the group nor the loop is the function. -/
theorem extract_function_method :
    (∃ e ∈ extract .go {} methodSource, e.function = some "grow") ∧
      ∃ line ∈ lines methodSource.toList, ∃ name,
        Heading.Defines line name ∧ some "grow" = some (String.ofList name) := by
  have hfound : some "grow" ∈ (extract .go {} methodSource).map (·.function) := by decide +kernel
  obtain ⟨e, he, hf⟩ := List.mem_map.mp hfound
  refine ⟨⟨e, he, hf⟩, ?_⟩
  rcases extract_function .go {} methodSource e he with hnone | hdefined
  · rw [hf] at hnone
    cases hnone
  · rwa [hf] at hdefined

end LineScan

end HeapAudit
