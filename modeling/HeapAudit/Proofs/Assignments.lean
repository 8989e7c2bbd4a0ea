import HeapAudit.Heading
import HeapAudit.Proofs.Hints

namespace HeapAudit
open Text

namespace Text

section Blanks

variable {gap : Chars} (hg : ∀ c ∈ gap, isBlank c = true)

include hg

theorem trimLeft_blanks (rest : Chars) : trimLeft (gap ++ rest) = trimLeft rest :=
  List.dropWhile_append_of_pos hg

theorem trimLeft_blanks_cons {c : Char} (hc : isBlank c = false) (rest : Chars) :
    trimLeft (gap ++ c :: rest) = c :: rest := by
  rw [trimLeft_blanks hg, trimLeft_cons hc]

theorem trimRight_blanks (before : Chars) : trimRight (before ++ gap) = trimRight before := by
  unfold trimRight
  rw [List.reverse_append,
    List.dropWhile_append_of_pos fun c hc => hg c (List.mem_reverse.mp hc)]

/-- After blanks, or none, a text goes on with a blank or with what follows them. -/
theorem head_blanks {p : Char → Bool} (hp : ∀ b, isBlank b = true → p b = false) {c d : Char}
    (hc : p c = false) {rest : Chars} (hd : (gap ++ c :: rest).head? = some d) : p d = false := by
  cases gap with
  | nil =>
    cases hd
    exact hc
  | cons b gap =>
    cases hd
    exact hp _ (hg _ List.mem_cons_self)

theorem getLast?_blanks {c : Char} (hc : isWord c = false) (before : Chars) :
    notWord (before ++ c :: gap).getLast? = true := by
  rw [List.getLast?_append_of_ne_nil _ (List.cons_ne_nil c gap), List.getLast?_cons]
  cases hl : gap.getLast? with
  | none => simp [notWord, hc]
  | some b => simp [notWord, isWord_of_isBlank (hg b (List.mem_of_getLast? hl))]

/-- The last word of a text is found before the blanks at its end. -/
theorem lastWord?_append {before name : Chars} (hn : IsName name)
    (hb : notWord before.getLast? = true) :
    Heading.lastWord? (before ++ name ++ gap) = some (before, name) := by
  have hname : IsName name.reverse :=
    ⟨by simpa using hn.1, fun c hc => hn.2 c (List.mem_reverse.mp hc)⟩
  have hgap : (before ++ name ++ gap).reverse.dropWhile isBlank =
      name.reverse ++ before.reverse := by
    rw [List.reverse_append, List.reverse_append,
      List.dropWhile_append_of_pos fun c hc => hg c (List.mem_reverse.mp hc)]
    exact hname.trimLeft_append before.reverse
  have hword : run? isWord (name.reverse ++ before.reverse) =
      some (name.reverse, before.reverse) := by
    apply hname.word?_append
    intro c hc
    rw [List.head?_reverse] at hc
    simpa [notWord, hc] using hb
  rw [Heading.lastWord?, hgap, hword]
  simp

end Blanks

/-- What is left by trimming, with the blanks that were taken. -/
theorem exists_blanks (cs : Chars) :
    ∃ gap, (∀ c ∈ gap, isBlank c = true) ∧ cs = gap ++ trimLeft cs :=
  ⟨cs.takeWhile isBlank, fun _ hc => List.mem_takeWhile_imp hc,
    List.takeWhile_append_dropWhile.symm⟩

/-- A word and a bracket are read with all the blanks between them. -/
theorem opens?_iff {word cs rest : Chars} {bracket : Char} (hb : isBlank bracket = false) :
    opens? word bracket cs = some rest ↔
      ∃ gap, (∀ c ∈ gap, isBlank c = true) ∧ cs = word ++ gap ++ bracket :: rest := by
  constructor
  · intro h
    simp only [opens?, literal?, Option.bind_eq_bind, Option.bind_eq_some_iff] at h
    obtain ⟨after, hl, hc⟩ := h
    split at hl
    · rename_i hprefix
      cases hl
      obtain ⟨tail, rfl⟩ := List.isPrefixOf_iff_prefix.mp hprefix
      obtain ⟨gap, hg, htail⟩ := exists_blanks tail
      rw [List.drop_left] at hc
      refine ⟨gap, hg, ?_⟩
      rw [List.append_assoc, ← char?_some hc, ← htail]
    · cases hl
  · rintro ⟨gap, hg, rfl⟩
    simp [opens?, literal?, trimLeft_blanks_cons hg hb, char?]

theorem exists_blanks_after (cs : Chars) :
    ∃ gap, (∀ c ∈ gap, isBlank c = true) ∧ cs = trimRight cs ++ gap := by
  obtain ⟨gap, hg, hsplit⟩ := exists_blanks cs.reverse
  refine ⟨gap.reverse, fun c hc => hg c (List.mem_reverse.mp hc), ?_⟩
  have hback := congrArg List.reverse hsplit
  rwa [List.reverse_reverse, List.reverse_append] at hback

end Text

theorem assigned?_split {cs var rest : Chars} (h : assigned? cs = some (var, rest)) :
    IsName var ∧ ∃ gap after, (∀ c ∈ gap, isBlank c = true) ∧
      cs = var ++ gap ++ '=' :: after ∧ rest = trimLeft after := by
  simp only [assigned?, Option.bind_eq_bind, Option.bind_eq_some_iff, Option.some.injEq,
    Prod.mk.injEq] at h
  obtain ⟨⟨word, tail⟩, hw, after, hc, rfl, rfl⟩ := h
  obtain ⟨hname, rfl⟩ := word?_some hw
  obtain ⟨gap, hg, htail⟩ := exists_blanks tail
  refine ⟨hname, gap, after, hg, ?_, rfl⟩
  rw [List.append_assoc, ← char?_some hc, ← htail]

/-- Every binding ends in an assignment. Before it there is nothing, or a star and then no more than
blanks. -/
theorem Binding.read?_split {binding : Binding} {cs var rest : Chars}
    (h : binding.read? cs = some (var, rest)) :
    ∃ above assignment, cs = above ++ assignment ∧ assigned? assignment = some (var, rest) ∧
      (above = [] ∧ binding = .plain ∨
        ∃ before gap, (∀ c ∈ gap, isBlank c = true) ∧ above = before ++ '*' :: gap) := by
  cases binding with
  | plain => exact ⟨[], cs, rfl, h, .inl ⟨rfl, rfl⟩⟩
  | spacedPointer =>
    simp only [Binding.read?, Option.bind_eq_bind, Option.bind_eq_some_iff] at h
    obtain ⟨⟨type, after⟩, hw, spaced, hb, starred, hc, ha⟩ := h
    obtain ⟨-, rfl⟩ := word?_some hw
    obtain ⟨before, rfl⟩ := blanks?_suffix hb
    obtain ⟨gap, hg, hstarred⟩ := exists_blanks starred
    refine ⟨type ++ before ++ '*' :: gap, trimLeft starred, ?_, ha, .inr ⟨_, gap, hg, rfl⟩⟩
    rw [List.append_assoc (type ++ before), List.cons_append, ← hstarred, ← char?_some hc,
      List.append_assoc]
  | attachedPointer =>
    simp only [Binding.read?, Option.bind_eq_bind, Option.bind_eq_some_iff] at h
    obtain ⟨⟨type, after⟩, hw, starred, hc, ha⟩ := h
    obtain ⟨-, rfl⟩ := word?_some hw
    obtain ⟨gap, hg, hstarred⟩ := exists_blanks starred
    refine ⟨type ++ '*' :: gap, trimLeft starred, ?_, ha, .inr ⟨_, gap, hg, rfl⟩⟩
    rw [List.append_assoc, List.cons_append, ← hstarred, ← char?_some hc]

/-- A segment that assigns to a variable, with one equals sign. -/
structure Assigns (segment before var rest : Chars) : Prop where
  split : ∃ gap, (∀ c ∈ gap, isBlank c = true) ∧
    segment = before ++ var ++ gap ++ '=' :: rest
  name : IsName var
  start : notWord before.getLast? = true
  left : '=' ∉ before
  right : '=' ∉ rest

namespace Assigns

variable {segment before var rest : Chars} (h : Assigns segment before var rest)

include h

/-- There is one assignment. -/
theorem assigned? {above assignment name value : Chars} (hs : segment = above ++ assignment)
    (hp : notWord above.getLast? = true)
    (ha : HeapAudit.assigned? assignment = some (name, value)) :
    above = before ∧ name = var ∧ value = trimLeft rest := by
  obtain ⟨hname, gap', after, hg', rfl, rfl⟩ := assigned?_split ha
  obtain ⟨gap, hg, hseg⟩ := h.split
  have hleft : '=' ∉ before ++ var ++ gap := by
    have hvar := h.name.not_mem (c := '=') (by decide)
    have hgap : '=' ∉ gap := fun hm => absurd (hg _ hm) (by decide)
    simp [h.left, hvar, hgap]
  have hboth : before ++ var ++ gap ++ '=' :: rest =
      above ++ name ++ gap' ++ '=' :: after := by
    rw [← hseg, hs]
    simp
  obtain ⟨hheads, -, rfl⟩ := (List.append_cons_inj_of_notMem hleft h.right).mp hboth
  have hlast := congrArg Heading.lastWord? hheads
  rw [lastWord?_append hg h.name h.start, lastWord?_append hg' hname hp, Option.some.injEq,
    Prod.mk.injEq] at hlast
  exact ⟨hlast.1.symm, hlast.2.symm, rfl⟩

/-- Whatever form is found, its maker reads what is written after the equals sign, for the variable
before it. -/
theorem of_find? {form : AcquisitionForm} {found : Found} (hf : form.find? segment = some found) :
    form.maker.read? var (trimLeft rest) = some found ∧
      (form.binding = .plain ∨ '*' ∈ before) := by
  obtain ⟨outer, cs, hs, hp, hat⟩ := search_place hf
  simp only [AcquisitionForm.at?, Option.bind_eq_bind, Option.bind_eq_some_iff] at hat
  obtain ⟨⟨name, value⟩, hb, hm⟩ := hat
  obtain ⟨above, assignment, rfl, ha, habove⟩ := Binding.read?_split hb
  rw [← List.append_assoc] at hs
  rcases habove with ⟨rfl, hplain⟩ | ⟨type, gap, hg, rfl⟩
  · obtain ⟨-, rfl, rfl⟩ := h.assigned? hs (by simpa using hp) ha
    exact ⟨hm, .inl hplain⟩
  · rw [← List.append_assoc outer] at hs
    obtain ⟨habove, rfl, rfl⟩ :=
      h.assigned? hs (getLast?_blanks hg (by decide) _) ha
    exact ⟨hm, .inr (by rw [← habove]; simp)⟩

/-- A form whose binding reads the assignment finds what its maker reads. -/
theorem find?_eq {form : AcquisitionForm} {above cs : Chars} (hs : segment = above ++ cs)
    (hp : notWord above.getLast? = true)
    (hb : form.binding.read? cs = some (var, trimLeft rest)) :
    form.find? segment = form.maker.read? var (trimLeft rest) := by
  have hat : form.at? cs = form.maker.read? var (trimLeft rest) := by
    simp [AcquisitionForm.at?, hb]
  cases hf : form.find? segment with
  | some found => exact (h.of_find? hf).1.symm
  | none =>
    cases hm : form.maker.read? var (trimLeft rest) with
    | none => rfl
    | some found =>
      have hsome : (form.find? segment).isSome = true := by
        rw [hs]
        exact search_isSome (by simpa using hp) (by simp [hat, hm])
      rw [hf] at hsome
      cases hsome

/-- A form with a star is not found where no star is written. -/
theorem find?_none {form : AcquisitionForm} (hb : form.binding ≠ .plain) (hs : '*' ∉ before) :
    form.find? segment = none := by
  cases hf : form.find? segment with
  | none => rfl
  | some found =>
    rcases (h.of_find? hf).2 with hplain | hstar
    · exact absurd hplain hb
    · exact absurd hstar hs

end Assigns

theorem assigned?_written {var gap : Chars} (hv : IsName var) (hg : ∀ c ∈ gap, isBlank c = true)
    (rest : Chars) : assigned? (var ++ gap ++ '=' :: rest) = some (var, trimLeft rest) := by
  have hword : word? (var ++ (gap ++ '=' :: rest)) = some (var, gap ++ '=' :: rest) :=
    hv.word?_append fun _ hc => head_blanks hg (fun _ => isWord_of_isBlank) (by decide) hc
  have hequals : char? '=' (trimLeft (gap ++ '=' :: rest)) = some rest := by
    rw [trimLeft_blanks_cons hg (by decide)]
    rfl
  rw [List.append_assoc, assigned?, hword]
  simp [hequals]

/-- Blanks on one line, or none. -/
def IsSpacing (cs : Chars) : Prop := ∀ c ∈ cs, isBlank c = true ∧ c ≠ '\n'

instance (cs : Chars) : Decidable (IsSpacing cs) := List.decidableBAll _ cs

abbrev Spacing := { cs : Chars // IsSpacing cs }

/-- At least one blank. -/
abbrev Space := { gap : Spacing // gap.1 ≠ [] }

abbrev Name := { cs : Chars // IsName cs }

theorem Spacing.blank (gap : Spacing) : ∀ c ∈ gap.1, isBlank c = true := fun c hc => (gap.2 c hc).1

theorem Space.blanks?_append (gap : Space) (rest : Chars) :
    blanks? (gap.1.1 ++ rest) = some (trimLeft rest) := by
  obtain ⟨⟨cs, hb⟩, hne⟩ := gap
  obtain ⟨c, cs, rfl⟩ := List.exists_cons_of_ne_nil hne
  have hc : isBlank c = true := (hb c List.mem_cons_self).1
  have hcs := trimLeft_blanks (fun d hd => (hb d (List.mem_cons_of_mem c hd)).1) rest
  simp [blanks?, hc, hcs]

/-- Text on one side of an equals sign, within one statement and one line. -/
def IsInner (cs : Chars) : Prop := ∀ c ∈ cs, c ∉ ['=', ';', '\n']

instance (cs : Chars) : Decidable (IsInner cs) := List.decidableBAll _ cs

@[simp]
theorem isInner_nil : IsInner [] := fun _ hc => absurd hc List.not_mem_nil

@[simp]
theorem isInner_cons {c : Char} {cs : Chars} :
    IsInner (c :: cs) ↔ c ∉ ['=', ';', '\n'] ∧ IsInner cs :=
  List.forall_mem_cons

@[simp]
theorem isInner_append {as bs : Chars} : IsInner (as ++ bs) ↔ IsInner as ∧ IsInner bs :=
  List.forall_mem_append

theorem IsInner.not_mem {cs : Chars} (h : IsInner cs) {c : Char} (hc : c ∈ ['=', ';', '\n']) :
    c ∉ cs :=
  fun hm => h c hm hc

theorem IsInner.of_class {p : Char → Bool} {cs : Chars} (he : p '=' = false) (hs : p ';' = false)
    (hn : p '\n' = false) (h : ∀ c ∈ cs, p c = true) : IsInner cs := by
  intro c hc hm
  have hp := h c hc
  simp only [List.mem_cons, List.not_mem_nil, or_false] at hm
  rcases hm with rfl | rfl | rfl
  · simp [he] at hp
  · simp [hs] at hp
  · simp [hn] at hp

theorem Spacing.isInner (gap : Spacing) : IsInner gap.1 := by
  intro c hc hm
  obtain ⟨hb, hn⟩ := gap.2 c hc
  simp only [List.mem_cons, List.not_mem_nil, or_false] at hm
  rcases hm with rfl | rfl | rfl
  · exact absurd hb (by decide)
  · exact absurd hb (by decide)
  · exact hn rfl

theorem Name.isInner (name : Name) : IsInner name.1 :=
  .of_class (by decide) (by decide) (by decide) name.2.2

/-- What is written before the variable: nothing, `type *` or `type*`. -/
inductive Pointer where
  | bare
  | spaced (type : Name) (gap : Space) (after : Spacing)
  | attached (type : Name) (after : Spacing)

namespace Pointer

def chars : Pointer → Chars
  | bare => []
  | spaced type gap after => type.1 ++ gap.1.1 ++ '*' :: after.1
  | attached type after => type.1 ++ '*' :: after.1

/-- The binding that is written. -/
def binding : Pointer → Binding
  | bare => .plain
  | spaced .. => .spacedPointer
  | attached .. => .attachedPointer

/-- A variable that is assigned to, with what is written before it. -/
def assignment (p : Pointer) (var : Name) (gap : Spacing) (rest : Chars) : Chars :=
  p.chars ++ var.1 ++ gap.1 ++ '=' :: rest

variable (p : Pointer) (var : Name) (gap : Spacing) {rest : Chars}

theorem isInner : IsInner p.chars := by
  cases p with
  | bare => exact isInner_nil
  | spaced type gap after => simp [chars, type.isInner, gap.1.isInner, after.isInner]
  | attached type after => simp [chars, type.isInner, after.isInner]

theorem start : notWord p.chars.getLast? = true := by
  cases p with
  | bare => rfl
  | spaced type gap after => exact getLast?_blanks after.blank (by decide) _
  | attached type after => exact getLast?_blanks after.blank (by decide) _

theorem assigns (hr : '=' ∉ rest) :
    Assigns (p.assignment var gap rest) p.chars var.1 rest :=
  ⟨⟨gap.1, gap.blank, rfl⟩, var.2, p.start, p.isInner.not_mem (by decide), hr⟩

/-- The binding that is written reads up to the assignment. -/
theorem read?_append {assignment : Chars} (ha : trimLeft assignment = assignment) :
    p.binding.read? (p.chars ++ assignment) = assigned? assignment := by
  have hafter : ∀ after : Spacing, trimLeft (after.1 ++ assignment) = assignment := by
    intro after
    rw [trimLeft_blanks after.blank, ha]
  have hstar : ∀ cs, char? '*' ('*' :: cs) = some cs := fun _ => rfl
  cases p with
  | bare => rfl
  | spaced type gap after =>
    have hsplit : (spaced type gap after).chars ++ assignment =
        type.1 ++ (gap.1.1 ++ '*' :: (after.1 ++ assignment)) := by
      simp [chars]
    have hword : word? (type.1 ++ (gap.1.1 ++ '*' :: (after.1 ++ assignment))) =
        some (type.1, gap.1.1 ++ '*' :: (after.1 ++ assignment)) :=
      type.2.word?_append fun _ hc =>
        head_blanks gap.1.blank (fun _ => isWord_of_isBlank) (by decide) hc
    rw [hsplit, binding, Binding.read?, hword]
    simp only [Option.bind_eq_bind, Option.bind_some, gap.blanks?_append,
      trimLeft_cons (show isBlank '*' = false by decide), hstar, hafter]
  | attached type after =>
    have hsplit : (attached type after).chars ++ assignment =
        type.1 ++ '*' :: (after.1 ++ assignment) := by
      simp [chars]
    have hword : word? (type.1 ++ '*' :: (after.1 ++ assignment)) =
        some (type.1, '*' :: (after.1 ++ assignment)) :=
      type.2.word?_append (by simp; decide)
    rw [hsplit, binding, Binding.read?, hword]
    simp only [Option.bind_eq_bind, Option.bind_some, hstar, hafter]

section Table

variable (hr : '=' ∉ rest)

include hr

/-- Forms with the binding that is written, and forms without a type, find what their maker
reads. -/
theorem find?_fitting {form : AcquisitionForm}
    (hb : form.binding = p.binding ∨ form.binding = .plain) :
    form.find? (p.assignment var gap rest) = form.maker.read? var.1 (trimLeft rest) := by
  have hassigns := p.assigns var gap hr
  have hassigned := assigned?_written var.2 gap.blank rest
  have hleft : trimLeft (var.1 ++ gap.1 ++ '=' :: rest) = var.1 ++ gap.1 ++ '=' :: rest := by
    rw [List.append_assoc, var.2.trimLeft_append]
  have hsplit : p.assignment var gap rest = p.chars ++ (var.1 ++ gap.1 ++ '=' :: rest) := by
    simp [assignment]
  rcases hb with hb | hb
  · refine hassigns.find?_eq (List.nil_append _).symm rfl ?_
    rw [hb, hsplit, p.read?_append hleft, hassigned]
  · refine hassigns.find?_eq hsplit p.start ?_
    rw [hb]
    exact hassigned

/-- Forms with another type find the same or nothing. -/
theorem find?_other (form : AcquisitionForm) :
    form.find? (p.assignment var gap rest) = none ∨
      form.find? (p.assignment var gap rest) = form.maker.read? var.1 (trimLeft rest) := by
  cases hf : form.find? (p.assignment var gap rest) with
  | none => exact .inl rfl
  | some found => exact .inr ((p.assigns var gap hr).of_find? hf).1.symm

/-- The two forms with a type find together what their maker reads, if a type is written. -/
theorem find?_typed (maker : Maker) (name name' : String) :
    (AcquisitionForm.find? ⟨name, .spacedPointer, maker⟩ (p.assignment var gap rest)).or
        (AcquisitionForm.find? ⟨name', .attachedPointer, maker⟩ (p.assignment var gap rest)) =
      if p.binding = .plain then none else maker.read? var.1 (trimLeft rest) := by
  have hassigns := p.assigns var gap hr
  have hother := p.find?_other var gap hr
  cases p with
  | bare =>
    rw [hassigns.find?_none (by simp) List.not_mem_nil,
      hassigns.find?_none (by simp) List.not_mem_nil]
    rfl
  | spaced type space after =>
    rw [find?_fitting _ var gap hr (.inl rfl), if_neg (by simp [binding])]
    rcases hother ⟨name', .attachedPointer, maker⟩ with ho | ho
    · rw [ho, Option.or_none]
    · rw [ho, Option.or_self]
  | attached type after =>
    have hfits : AcquisitionForm.find? ⟨name', .attachedPointer, maker⟩
        ((attached type after).assignment var gap rest) = maker.read? var.1 (trimLeft rest) :=
      find?_fitting _ var gap hr (.inl rfl)
    rw [hfits, if_neg (by simp [binding])]
    rcases hother ⟨name, .spacedPointer, maker⟩ with ho | ho
    · rw [ho, Option.none_or]
    · rw [ho, Option.or_self]

theorem findSome?_plain (maker : Maker) (name : String) (forms : List AcquisitionForm) :
    (⟨name, .plain, maker⟩ :: forms).findSome? (·.find? (p.assignment var gap rest)) =
      (maker.read? var.1 (trimLeft rest)).or
        (forms.findSome? (·.find? (p.assignment var gap rest))) := by
  have hfits : AcquisitionForm.find? ⟨name, .plain, maker⟩ (p.assignment var gap rest) =
      maker.read? var.1 (trimLeft rest) :=
    p.find?_fitting var gap hr (.inr rfl)
  rw [List.findSome?_cons, hfits]
  cases maker.read? var.1 (trimLeft rest) with
  | none => rfl
  | some found => rfl

theorem findSome?_typed (maker : Maker) (name name' : String) (forms : List AcquisitionForm) :
    (⟨name, .spacedPointer, maker⟩ :: ⟨name', .attachedPointer, maker⟩ :: forms).findSome?
        (·.find? (p.assignment var gap rest)) =
      (if p.binding = .plain then none else maker.read? var.1 (trimLeft rest)).or
        (forms.findSome? (·.find? (p.assignment var gap rest))) := by
  rw [← p.find?_typed var gap hr maker name name', List.findSome?_cons, List.findSome?_cons]
  cases AcquisitionForm.find? ⟨name, .spacedPointer, maker⟩ (p.assignment var gap rest) with
  | some found => rfl
  | none =>
    rw [Option.none_or]
    cases AcquisitionForm.find? ⟨name', .attachedPointer, maker⟩ (p.assignment var gap rest) with
    | none => rfl
    | some found => rfl

/-- If one maker reads what is written after the equals sign, and no other but the one that stops
after the name of the type, the table finds what that maker reads. -/
theorem findSome?_maker {maker : Maker} {found : Found}
    (hm : maker.read? var.1 (trimLeft rest) = some found)
    (ho : ∀ other, other ≠ maker → other ≠ .constructPlain →
      other.read? var.1 (trimLeft rest) = none) :
    acquisitionForms.findSome? (·.find? (p.assignment var gap rest)) = some found := by
  unfold acquisitionForms
  rw [p.findSome?_typed var gap hr, p.findSome?_plain var gap hr, p.findSome?_plain var gap hr,
    p.findSome?_typed var gap hr, p.findSome?_typed var gap hr, p.findSome?_typed var gap hr,
    p.findSome?_plain var gap hr, p.findSome?_plain var gap hr, p.findSome?_plain var gap hr]
  -- Without a type the casts come before the plain calls, with one the calls come first.
  by_cases hb : p.binding = .plain
  · cases maker with
    | call => simp [hb, hm, ho .castCall]
    | castCall => simp [hb, hm]
    | construct => simp [hb, hm, ho .call, ho .castCall]
    | constructArray => simp [hb, hm, ho .call, ho .castCall, ho .construct]
    | constructPlain => simp [hb, hm, ho .call, ho .castCall, ho .construct, ho .constructArray]
  · cases maker with
    | call => simp [hb, hm]
    | castCall => simp [hb, hm, ho .call]
    | construct => simp [hb, hm, ho .call, ho .castCall]
    | constructArray => simp [hb, hm, ho .call, ho .castCall, ho .construct]
    | constructPlain => simp [hb, hm, ho .call, ho .castCall, ho .construct, ho .constructArray]

end Table

end Pointer

end HeapAudit
