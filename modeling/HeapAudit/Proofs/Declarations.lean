import HeapAudit.Proofs.Initializers

namespace HeapAudit
open Text

namespace Statement

/-- Inside brackets or quotes a semicolon at the end ends nothing. -/
theorem cut_inside {cs : Chars} (h : ';' ∉ cs) {p : Place}
    (hp : (cs.foldl Place.next p).atTop = false) : cut p (cs ++ [';']) = [cs ++ [';']] := by
  induction cs generalizing p with
  | nil =>
    have hp : p.atTop = false := hp
    simp [cut, hp]
  | cons c cs ih =>
    have hc : c ≠ ';' := fun hc => h (by simp [hc])
    have hcs : ';' ∉ cs := fun hm => h (by simp [hm])
    simp [cut, hc, ih hcs hp]

/-- A statement whose only semicolon is its end is one segment, which keeps the semicolon where
brackets or quotes are open. -/
theorem segments_statement {cs : Chars} (h : ';' ∉ cs) (hl : trimLeft cs = cs) (hne : cs ≠ []) :
    segments (cs ++ [';']) = [trimRight cs] ∨ segments (cs ++ [';']) = [cs ++ [';']] := by
  cases htop : (placeAfter cs).atTop with
  | true =>
    left
    have htrim : trim cs = trimRight cs := by rw [trim, hl]
    obtain ⟨c, rest, rfl⟩ := List.exists_cons_of_ne_nil hne
    have hright : trimRight (c :: rest) ≠ [] := by
      rw [trimRight_cons (trimLeft_head hl)]
      exact List.cons_ne_nil _ _
    rw [segments_semicolon h htop (by rwa [htrim]), htrim]
  | false =>
    right
    have hcut : cut {} (cs ++ [';']) = [cs ++ [';']] := cut_inside h htop
    rw [segments_eq, hcut, List.map_singleton, trim_concat (by decide) hl]
    simp

end Statement

/-- A declaration with an initializer, or an assignment: all that stands on one line. -/
structure Declaration where
  indent : Spacing
  pointer : Pointer
  var : Name
  /-- Before the equals sign. -/
  gap : Spacing
  /-- After the equals sign. -/
  after : Spacing
  init : Initializer
  /-- Before the semicolon. -/
  close : Spacing
  trailing : Spacing

namespace Declaration

variable (d : Declaration)

/-- The statement without its semicolon. -/
def body : Chars := d.pointer.assignment d.var d.gap (d.after.1 ++ d.init.chars)

def line : Chars := d.indent.1 ++ (d.body ++ d.close.1 ++ ';' :: d.trailing.1)

/-- A declaration starts with a name: that of the type, or of the variable. -/
theorem exists_name : ∃ name cs, IsName name ∧ d.body = name ++ cs := by
  unfold body Pointer.assignment
  obtain ⟨rest, hrest⟩ : ∃ rest, d.gap.1 ++ '=' :: (d.after.1 ++ d.init.chars) = rest := ⟨_, rfl⟩
  cases d.pointer with
  | bare => exact ⟨d.var.1, rest, d.var.2, by simp [Pointer.chars, hrest]⟩
  | spaced type gap after =>
    exact ⟨type.1, gap.1.1 ++ '*' :: (after.1 ++ (d.var.1 ++ rest)), type.2,
      by simp [Pointer.chars, hrest]⟩
  | attached type after =>
    exact ⟨type.1, '*' :: (after.1 ++ (d.var.1 ++ rest)), type.2, by simp [Pointer.chars, hrest]⟩

theorem trimLeft_body (rest : Chars) : trimLeft (d.body ++ rest) = d.body ++ rest := by
  obtain ⟨name, cs, hname, hbody⟩ := d.exists_name
  rw [hbody, List.append_assoc, hname.trimLeft_append]

theorem head_body (rest : Chars) : (d.body ++ rest).head? ≠ some '#' := by
  obtain ⟨name, cs, hname, hbody⟩ := d.exists_name
  obtain ⟨c, name, rfl⟩ := List.exists_cons_of_ne_nil hname.1
  rw [hbody]
  intro hc
  cases hc
  exact hname.not_mem (show isWord '#' = false by decide) List.mem_cons_self

theorem not_mem_body {c : Char} (hc : c ∈ ['=', ';', '\n']) (he : c ≠ '=') : c ∉ d.body := by
  simp [body, Pointer.assignment, d.pointer.isInner.not_mem hc, d.var.isInner.not_mem hc,
    d.gap.isInner.not_mem hc, he, d.after.isInner.not_mem hc, d.init.isInner.not_mem hc]

theorem trimRight_body : trimRight d.body = d.body := by
  have hsplit : d.body = d.pointer.chars ++ d.var.1 ++ d.gap.1 ++ '=' :: d.after.1 ++
      d.init.chars := by
    simp [body, Pointer.assignment]
  rw [hsplit, d.init.trimRight_chars]

theorem trim_line : trim d.line = d.body ++ d.close.1 ++ [';'] := by
  have hsplit : d.body ++ d.close.1 ++ ';' :: d.trailing.1 =
      d.body ++ d.close.1 ++ [';'] ++ d.trailing.1 := by
    simp
  rw [trim, line, trimLeft_blanks d.indent.blank, List.append_assoc, d.trimLeft_body,
    ← List.append_assoc, hsplit, trimRight_blanks d.trailing.blank, trimRight_concat (by decide)]

/-- The statement is one segment. -/
theorem segments_line :
    ∃ tail, IsEnd tail ∧ Statement.segments (trim d.line) = [d.body ++ tail] := by
  have hsemicolon : ';' ∉ d.body ++ d.close.1 := by
    simp [d.not_mem_body, d.close.isInner.not_mem]
  have hne : d.body ++ d.close.1 ≠ [] := by
    simp [body, Pointer.assignment]
  have hright : trimRight (d.body ++ d.close.1) = d.body := by
    rw [trimRight_blanks d.close.blank, d.trimRight_body]
  rw [d.trim_line]
  rcases Statement.segments_statement hsemicolon (d.trimLeft_body _) hne with hs | hs
  · refine ⟨[], .inl rfl, ?_⟩
    rw [hs, hright, List.append_nil]
  · refine ⟨d.close.1 ++ [';'], .inr ⟨d.close, rfl⟩, ?_⟩
    rw [hs, List.append_assoc]

/-- The table finds in it what is written. -/
theorem findSome?_body {tail : Chars} (ht : IsEnd tail) :
    acquisitionForms.findSome? (·.find? (d.body ++ tail)) =
      some ⟨d.var.1, d.init.primitive, d.init.arguments, d.init.isArray⟩ := by
  have hsplit : d.body ++ tail =
      d.pointer.assignment d.var d.gap (d.after.1 ++ (d.init.chars ++ tail)) := by
    simp [body, Pointer.assignment]
  have hleft : trimLeft (d.after.1 ++ (d.init.chars ++ tail)) = d.init.chars ++ tail := by
    rw [trimLeft_blanks d.after.blank, d.init.trimLeft_chars]
  have hequals : '=' ∉ d.after.1 ++ (d.init.chars ++ tail) := by
    simp [d.after.isInner.not_mem, d.init.isInner.not_mem, ht.not_equals]
  rw [hsplit]
  apply d.pointer.findSome?_maker d.var d.gap hequals
  · rw [hleft]
    exact d.init.read?_written d.var.1 ht
  · intro other hm hp
    rw [hleft]
    exact d.init.read?_other d.var.1 ht hm hp

end Declaration

namespace LineScan

theorem release?_filter (tables : Tables) (scopes : List Scope) (number : Nat)
    (head segment : Chars) :
    (release? tables scopes number head segment).toList.filter (·.kind = .allocation) = [] := by
  unfold release?
  cases List.findSome? _ _ with
  | none => rfl
  | some found => rfl

/-- A declaration is read as one segment. -/
theorem extract_segment (language : Language) (d : Declaration) :
    ∃ scopes tail, IsEnd tail ∧ extract language {} (String.ofList d.line) =
      segmentEvents {} scopes 1 (trim d.line) (d.body ++ tail) := by
  have hnewline : '\n' ∉ d.line := by
    simp [Declaration.line, d.indent.isInner.not_mem, d.not_mem_body, d.close.isInner.not_mem,
      d.trailing.isInner.not_mem]
  have hhash : (trim d.line).head? ≠ some '#' := by
    rw [d.trim_line, List.append_assoc]
    exact d.head_body _
  have hwhole : isContinued (trim d.line) = false := by
    simp [d.trim_line, Bool.eq_false_iff, isContinued_iff]
  obtain ⟨scopes, he⟩ := extract_line language {} hnewline (by simp [d.trim_line]) hhash hwhole
  obtain ⟨tail, htail, hsegments⟩ := d.segments_line
  exact ⟨scopes, tail, htail, by rw [he, hsegments, List.flatMap_singleton]⟩

/-- However it is spaced, a declaration or an assignment gives one acquisition, of what is written
in it. -/
theorem extract_declaration (language : Language) (d : Declaration) :
    ∃ e, (extract language {} (String.ofList d.line)).filter (·.kind = .allocation) = [e] ∧
      e.var = String.ofList d.var.1 ∧ e.primitive = d.init.primitive ∧
      e.arguments = .text (String.ofList d.init.arguments) ∧ e.isArray = d.init.isArray := by
  obtain ⟨scopes, tail, htail, he⟩ := extract_segment language d
  -- A release may be written in the arguments; it comes after the acquisition.
  rw [he, segmentEvents, List.filter_append, release?_filter, acquisition?,
    d.findSome?_body htail]
  exact ⟨_, rfl, rfl, rfl, rfl, rfl⟩

/-- A declaration whose cast leaves a parenthesis open, so that the semicolon stays in the
segment. -/
def openCast : Declaration where
  indent := ⟨[' ', ' '], by decide⟩
  pointer := .spaced ⟨['c', 'h', 'a', 'r'], by decide⟩ ⟨⟨[' '], by decide⟩, by decide⟩
    ⟨[], by decide⟩
  var := ⟨['b', 'u', 'f'], by decide⟩
  gap := ⟨[' '], by decide⟩
  after := ⟨[' '], by decide⟩
  init := .castCall ⟨['c', 'h', 'a', 'r', ' ', '(', '*'], by decide⟩ ⟨[' '], by decide⟩
    ⟨"malloc", by decide⟩ ⟨[], by decide⟩ ⟨[' ', 'n', ' ', '*', ' ', '(', 'k', ')', ' '], by decide⟩
  close := ⟨[' '], by decide⟩
  trailing := ⟨[' '], by decide⟩

theorem extract_declaration_openCast :
    String.ofList openCast.line = "  char *buf = (char (*) malloc( n * (k) ) ; " ∧
      ∃ e, (extract .cpp {} (String.ofList openCast.line)).filter (·.kind = .allocation) = [e] ∧
        e.var = "buf" ∧ e.primitive = "malloc" ∧ e.arguments = .text "n * (k)" ∧
        e.isArray = false := by
  refine ⟨by decide, ?_⟩
  obtain ⟨e, he, hvar, hprimitive, harguments, harray⟩ := extract_declaration .cpp openCast
  have hname : String.ofList openCast.var.1 = "buf" := by decide
  have htext : String.ofList openCast.init.arguments = "n * (k)" := by decide
  exact ⟨e, he, hvar.trans hname, hprimitive, harguments.trans (by rw [htext]), harray⟩

end LineScan

end HeapAudit
