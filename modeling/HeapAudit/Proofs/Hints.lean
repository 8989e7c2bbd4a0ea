import HeapAudit.Advice
import HeapAudit.Proofs.Forms
import HeapAudit.Proofs.ScanSteps
import HeapAudit.Proofs.Segments

namespace HeapAudit
open Text

namespace Text

theorem isWord_of_isBlank {c : Char} (h : isBlank c = true) : isWord c = false := by
  -- Word characters are given by a table, so the blanks are looked up one by one.
  have hcodes : ∀ n ∈ [9, 10, 11, 12, 13, 28, 29, 30, 31, 32, 0x85, 0xA0, 0x1680, 0x2000, 0x2001,
      0x2002, 0x2003, 0x2004, 0x2005, 0x2006, 0x2007, 0x2008, 0x2009, 0x200A, 0x2028, 0x2029,
      0x202F, 0x205F, 0x3000], isWord (Char.ofNat n) = false := by
    decide +kernel
  rw [← Char.ofNat_toNat c]
  apply hcodes
  simp only [isBlank, Bool.or_eq_true, Bool.and_eq_true, decide_eq_true_eq, beq_iff_eq] at h
  simp only [List.mem_cons, List.not_mem_nil, or_false]
  omega

theorem isNamePart_of_isBlank {c : Char} (h : isBlank c = true) : isNamePart c = false := by
  have hpoint : c ≠ '.' := by
    rintro rfl
    cases h
  simp [isNamePart, isWord_of_isBlank h, hpoint]

/-- A run of a class of characters is read up to its end. -/
theorem run?_append {p : Char → Bool} {word rest : Chars} (hne : word ≠ [])
    (hw : ∀ c ∈ word, p c = true) (hr : ∀ c, rest.head? = some c → p c = false) :
    run? p (word ++ rest) = some (word, rest) := by
  have htake : (word ++ rest).takeWhile p = word := by
    rw [List.takeWhile_append_of_pos hw]
    cases rest with
    | nil => simp
    | cons c rest => simp [hr c rfl]
  have hdrop : (word ++ rest).dropWhile p = rest := by
    rw [List.dropWhile_append_of_pos hw]
    cases rest with
    | nil => simp
    | cons c rest => simp [hr c rfl]
  unfold run?
  rw [htake, hdrop]
  obtain ⟨c, cs, rfl⟩ := List.exists_cons_of_ne_nil hne
  rfl

namespace IsName

variable {name : Chars} (h : IsName name)

include h

theorem not_mem {c : Char} (hc : isWord c = false) : c ∉ name := by
  intro hm
  rw [h.2 c hm] at hc
  cases hc

theorem not_blank {c : Char} (hc : c ∈ name) : isBlank c = false := by
  by_contra hb
  exact h.not_mem (isWord_of_isBlank (by simpa using hb)) hc

theorem trimLeft_append (rest : Chars) : trimLeft (name ++ rest) = name ++ rest := by
  obtain ⟨c, cs, rfl⟩ := List.exists_cons_of_ne_nil h.1
  exact trimLeft_cons (h.not_blank List.mem_cons_self) (cs ++ rest)

theorem trimRight_append (before : Chars) : trimRight (before ++ name) = before ++ name := by
  obtain ⟨cs, c, rfl⟩ := List.eq_nil_or_concat name |>.resolve_left h.1
  rw [List.concat_eq_append, ← List.append_assoc]
  exact trimRight_concat (h.not_blank (by simp)) (before ++ cs)

/-- A name is read up to its end. -/
theorem word?_append {rest : Chars} (hr : ∀ c, rest.head? = some c → isWord c = false) :
    word? (name ++ rest) = some (name, rest) :=
  run?_append h.1 h.2 hr

end IsName

theorem lines_of_not_mem {cs : Chars} (h : '\n' ∉ cs) : lines cs = [cs] := by
  induction cs with
  | nil => rfl
  | cons c cs ih =>
    rw [lines_cons, if_neg (fun hc => h (by simp [hc])), ih (fun hm => h (by simp [hm]))]
    rfl

end Text

namespace Statement

theorem cut_of_not_mem {cs : Chars} (h : ';' ∉ cs) (p : Place) : cut p cs = [cs] := by
  induction cs generalizing p with
  | nil => rfl
  | cons c cs ih =>
    rw [cut, if_neg (fun hc => h (by simp [hc.1])), ih (fun hm => h (by simp [hm]))]
    rfl

/-- A statement whose only semicolon is its end is one segment. -/
theorem segments_semicolon {cs : Chars} (h : ';' ∉ cs) (htop : (placeAfter cs).atTop = true)
    (hne : trim cs ≠ []) : segments (cs ++ [';']) = [trim cs] := by
  have hrest : segments [] = [] := by decide
  rw [segments_append htop, segments_eq, cut_of_not_mem h, List.map_singleton, hrest]
  simp [hne]

/-- A name neither opens nor closes anything. -/
theorem foldl_next_name {name : Chars} (h : ∀ c ∈ name, isWord c = true) {p : Place}
    (hp : p.quote = none) : name.foldl Place.next p = p := by
  induction name with
  | nil => rfl
  | cons c name ih =>
    have hc : ∀ d, isWord d = false → c ≠ d := by
      rintro d hd rfl
      rw [h c List.mem_cons_self] at hd
      cases hd
    have hnext : p.next c = p := by
      simp [Place.next, hp, hc '"' (by decide), hc '\'' (by decide), hc '(' (by decide),
        hc '[' (by decide), hc ')' (by decide), hc ']' (by decide)]
    rw [List.foldl_cons, hnext]
    exact ih fun d hd => h d (List.mem_cons_of_mem _ hd)

end Statement

namespace LineScan

/-- A text that is one statement of one segment. -/
structure Single (segment : Chars) : Prop where
  newline : '\n' ∉ segment
  semicolon : ';' ∉ segment
  left : trimLeft segment = segment
  right : trimRight segment = segment
  head : ∃ c, segment.head? = some c ∧ c ≠ '#'
  top : (Statement.placeAfter segment).atTop = true

namespace Single

variable {segment : Chars} (h : Single segment)

include h

theorem trim_semicolon : trim (segment ++ [';']) = segment ++ [';'] :=
  trim_concat (by decide) h.left

theorem segments_semicolon : Statement.segments (segment ++ [';']) = [segment] := by
  have htrim : trim segment = segment := by
    rw [trim, h.left, h.right]
  have hne : trim segment ≠ [] := by
    obtain ⟨c, hc, -⟩ := h.head
    rw [htrim]
    rintro rfl
    cases hc
  rw [Statement.segments_semicolon h.semicolon h.top hne, htrim]

end Single

/-- A source of one line that is read and not continued is one statement, whether the line completes
it or the end of the source does. -/
theorem extract_line (language : Language) (tables : Tables) {line : Chars}
    (hnewline : '\n' ∉ line) (hn : trim line ≠ []) (hhash : (trim line).head? ≠ some '#')
    (hcontinued : isContinued (trim line) = false) :
    ∃ scopes, extract language tables (String.ofList line) =
      (Statement.segments (trim line)).flatMap
        (segmentEvents tables scopes 1 (trim line)) := by
  have hdirective : ({} : State).isDirective language (trim line) = false := by
    simp [State.isDirective, hhash]
  have hpending : ∀ scopes, (Pending.add ({} : State).pending 1 (trim line)).events tables scopes =
      (Statement.segments (trim line)).flatMap (segmentEvents tables scopes 1 (trim line)) := by
    intro scopes
    simp [Pending.add, Pending.events, Pending.statement, contents, hcontinued, joinWith]
  unfold extract
  rw [String.toList_ofList, lines_of_not_mem hnewline, scanLines, scanLines,
    State.scanLine_read hn hdirective]
  unfold State.flush
  cases hc : completes language (Pending.add ({} : State).pending 1 (trim line)) (trim line) with
  | true =>
    obtain ⟨hp, -, scopes, he⟩ := State.take_completed tables (indent line) hc
    rw [hp]
    exact ⟨scopes, he.trans (hpending scopes)⟩
  | false =>
    obtain ⟨hp, -, he⟩ := State.take_open tables (indent line) hc
    rw [hp]
    dsimp only
    rw [he]
    exact ⟨_, hpending _⟩

theorem extract_single (language : Language) (tables : Tables) {segment : Chars}
    (h : Single segment) :
    ∃ scopes, extract language tables (String.ofList (segment ++ [';'])) =
      segmentEvents tables scopes 1 (segment ++ [';']) segment := by
  have htrim := h.trim_semicolon
  obtain ⟨c, hhead, hhash⟩ := h.head
  obtain ⟨scopes, he⟩ := @extract_line language tables (segment ++ [';'])
    (by simp [h.newline]) (by simp [htrim]) (by simp [htrim, List.head?_append, hhead, hhash])
    (by simp [htrim, Bool.eq_false_iff, isContinued_iff])
  refine ⟨scopes, ?_⟩
  rw [he, htrim, h.segments_semicolon, List.flatMap_singleton]

end LineScan

namespace ReleaseForm

/-- The statement that releases a variable in this form, without its semicolon. -/
def written : ReleaseForm → Chars → Chars
  | free, var => ['f', 'r', 'e', 'e', '('] ++ var ++ [')']
  | deleteArray, var => ['d', 'e', 'l', 'e', 't', 'e', '[', ']', ' '] ++ var
  | delete, var => ['d', 'e', 'l', 'e', 't', 'e', ' '] ++ var

/-- A form reads the variable back. -/
theorem at?_written {var : Chars} (h : IsName var) (form : ReleaseForm) :
    form.at? (form.written var) = some var := by
  have hend : word? var = some (var, []) := by
    have hword : word? (var ++ []) = some (var, []) := h.word?_append (by simp)
    rwa [List.append_nil] at hword
  have hleft : trimLeft var = var := by
    simpa using h.trimLeft_append []
  cases form with
  | free =>
    have hopen : opens? "free".toList '(' (written free var) = some (var ++ [')']) := by
      simp [opens?, literal?, written, trimLeft, char?, isBlank]
    have hword : word? (trimLeft (var ++ [')'])) = some (var, [')']) := by
      rw [h.trimLeft_append]
      exact h.word?_append (by simp; decide)
    have hclose : char? ')' (trimLeft [')']) = some [] := by decide
    simp only [at?, hopen, hword, hclose, Option.bind_eq_bind, Option.bind_some]
  | deleteArray =>
    have hopen : opens? "delete".toList '[' (written deleteArray var) =
        some (']' :: ' ' :: var) := by
      simp [opens?, literal?, written, trimLeft, char?, isBlank]
    have hclose : char? ']' (trimLeft (']' :: ' ' :: var)) = some (' ' :: var) := rfl
    have hspace : trimLeft (' ' :: var) = var := hleft
    have hparen : char? '(' var = none := by
      obtain ⟨c, cs, rfl⟩ := List.exists_cons_of_ne_nil h.1
      exact if_neg fun hc => h.not_mem (show isWord '(' = false by decide) (by simp [hc])
    simp only [at?, hopen, hclose, hspace, hparen, hend, Option.bind_eq_bind, Option.bind_some,
      Option.map_none, Option.getD_none]
  | delete =>
    have hkeyword : literal? "delete".toList (written delete var) = some (' ' :: var) := by
      simp [literal?, written]
    have hparen : opening? (' ' :: var) = none := by
      obtain ⟨c, cs, rfl⟩ := List.exists_cons_of_ne_nil h.1
      unfold opening?
      change char? '(' (trimLeft (c :: cs)) = none
      rw [hleft]
      exact if_neg fun hc => h.not_mem (show isWord '(' = false by decide) (by simp [hc])
    have hblank : blanks? (' ' :: var) = some var := congrArg some hleft
    simp only [at?, hkeyword, hparen, hblank, Option.bind_eq_bind, Option.bind_some,
      Option.map_none]
    change (word? var).bind _ = _
    rw [hend]
    rfl

theorem find?_written {var : Chars} (h : IsName var) (form : ReleaseForm) :
    form.find? (form.written var) = some var :=
  searchWord_start (at?_written h form)

theorem mem_written {var : Chars} (h : IsName var) {c : Char} (hc : isWord c = false)
    {form : ReleaseForm} : c ∈ form.written var ↔ c ∈ form.written [] := by
  have hv := h.not_mem hc
  cases form with
  | free => simp [written, hv]
  | deleteArray => simp [written, hv]
  | delete => simp [written, hv]

/-- A form that needs a bracket is not found where the bracket is not written. -/
theorem find?_unwritten {var : Chars} (h : IsName var) {form other : ReleaseForm} {bracket : Char}
    (hb : other.bracket? = some bracket) (hw : isWord bracket = false)
    (hn : bracket ∉ form.written []) : other.find? (form.written var) = none := by
  cases hf : other.find? (form.written var) with
  | none => rfl
  | some found => exact absurd ((mem_written h hw).mp (find?_bracket hb hf)) hn

/-- The table finds a release in the form in which it is written. -/
theorem findSome?_written {var : Chars} (h : IsName var) (form : ReleaseForm) :
    (all.findSome? fun other => (other.find? (form.written var)).map (other, ·)) =
      some (form, var) := by
  have hfound := find?_written h form
  cases form with
  | free => simp [all, hfound]
  | deleteArray =>
    have hfree : find? free (written deleteArray var) = none :=
      find?_unwritten h rfl (by decide) (by decide)
    simp [all, hfound, hfree]
  | delete =>
    have hfree : find? free (written delete var) = none :=
      find?_unwritten h rfl (by decide) (by decide)
    have harray : find? deleteArray (written delete var) = none :=
      find?_unwritten h rfl (by decide) (by decide)
    simp [all, hfound, hfree, harray]

theorem single_written {var : Chars} (h : IsName var) (form : ReleaseForm) :
    LineScan.Single (form.written var) := by
  have hname : ∀ p : Statement.Place, p.quote = none → var.foldl Statement.Place.next p = p :=
    fun p hp => Statement.foldl_next_name h.2 hp
  refine ⟨?_, ?_, ?_, ?_, ?_, ?_⟩
  · rw [mem_written h (by decide)]
    cases form <;> decide
  · rw [mem_written h (by decide)]
    cases form <;> decide
  · cases form <;> exact trimLeft_cons (by decide) _
  · cases form with
    | free => exact trimRight_concat (by decide) _
    | deleteArray => exact h.trimRight_append _
    | delete => exact h.trimRight_append _
  · cases form <;> exact ⟨_, rfl, by decide⟩
  · unfold Statement.placeAfter
    cases form with
    | free =>
      rw [written, List.foldl_append, List.foldl_append, hname _ (by decide)]
      decide
    | deleteArray =>
      rw [written, List.foldl_append, hname _ (by decide)]
      decide
    | delete =>
      rw [written, List.foldl_append, hname _ (by decide)]
      decide

end ReleaseForm

/-- What the line scan finds in a written release. -/
theorem LineScan.extract_written (language : Language) {var : Chars} (h : IsName var)
    (form : ReleaseForm) :
    ∃ d, extract language {} (String.ofList (form.written var ++ [';'])) = [d] ∧
      d.kind = .deallocation ∧ d.var = String.ofList var ∧ d.primitive = form.primitive := by
  obtain ⟨scopes, he⟩ := extract_single language {} (ReleaseForm.single_written h form)
  have hacquires : acquisition? {} scopes 1 (form.written var ++ [';']) (form.written var) =
      none := by
    cases ha : acquisition? {} scopes 1 (form.written var ++ [';']) (form.written var) with
    | none => rfl
    | some e =>
      obtain ⟨found, hf, -⟩ := Option.map_eq_some_iff.mp ha
      obtain ⟨acquisition, -, hform⟩ := List.exists_of_findSome?_eq_some hf
      have hequals := (AcquisitionForm.find?_some hform).2.2.2
      rw [ReleaseForm.mem_written h (by decide)] at hequals
      cases form <;> exact absurd hequals (by decide)
  rw [he, segmentEvents, hacquires, release?, ReleaseForm.findSome?_written h form]
  exact ⟨_, rfl, rfl, rfl, rfl⟩

/-- In C and C++ the advice is the release that fits, as it is written. -/
theorem Advice.hint_written {language : Language} (hl : language.isCFamily = true) (var : String)
    {primitive release : String} (hr : release? primitive = some release) :
    ∃ form : ReleaseForm, form.primitive = release ∧
      hint language var primitive = String.ofList (form.written var.toList ++ [';']) := by
  have hcases : release = "free" ∨ release = "delete" ∨ release = "delete[]" := by
    unfold release? at hr
    split_ifs at hr <;> simp_all
  unfold hint
  rw [hl, hr]
  rcases hcases with rfl | rfl | rfl
  · exact ⟨.free, rfl, by apply String.toList_injective; simp [ReleaseForm.written]⟩
  · exact ⟨.delete, rfl, by apply String.toList_injective; simp [ReleaseForm.written]⟩
  · exact ⟨.deleteArray, rfl, by apply String.toList_injective; simp [ReleaseForm.written]⟩

/-- The advice on a leak is one release of its variable. -/
theorem Advice.extract_hint {language : Language} (hl : language.isCFamily = true) {var : String}
    (hv : IsName var.toList) {primitive release : String}
    (hr : release? primitive = some release) :
    ∃ d, LineScan.extract language {} (hint language var primitive) = [d] ∧
      d.kind = .deallocation ∧ d.var = var ∧ d.primitive = release := by
  obtain ⟨form, rfl, hw⟩ := hint_written hl var hr
  rw [hw]
  simpa using LineScan.extract_written language hv form

end HeapAudit
