import HeapAudit.Proofs.Assignments
import Mathlib.Data.List.Infix

namespace HeapAudit
open Text

namespace Statement

/-- As many parentheses are closed as are opened, and at no point more. -/
def Balanced (cs : Chars) : Prop :=
  cs.count '(' = cs.count ')' ∧ ∀ start, start <+: cs → start.count ')' ≤ start.count '('

instance (cs : Chars) : Decidable (Balanced cs) :=
  decidable_of_iff
    (cs.count '(' = cs.count ')' ∧ ∀ start ∈ cs.inits, start.count ')' ≤ start.count '(')
    (by simp [Balanced, List.mem_inits])

theorem matchedFrom_open (done : Chars) (depth : Nat) (cs : Chars) :
    matchedFrom done depth ('(' :: cs) = matchedFrom ('(' :: done) (depth + 1) cs := by
  cases depth <;> rfl

theorem matchedFrom_close (done : Chars) (depth : Nat) (cs : Chars) :
    matchedFrom done (depth + 1) (')' :: cs) = matchedFrom (')' :: done) depth cs :=
  rfl

theorem matchedFrom_other {c : Char} (ho : c ≠ '(') (hc : c ≠ ')') (done : Chars) (depth : Nat)
    (cs : Chars) : matchedFrom done depth (c :: cs) = matchedFrom (c :: done) depth cs := by
  cases depth <;> simp [matchedFrom, ho, hc]

/-- A text that never closes more parentheses than are open is passed as a whole. -/
theorem matchedFrom_append {cs : Chars} (done : Chars) (depth : Nat) (rest : Chars)
    (h : ∀ start, start <+: cs → start.count ')' ≤ depth + start.count '(') :
    matchedFrom done depth (cs ++ rest) =
      matchedFrom (cs.reverse ++ done) (depth + cs.count '(' - cs.count ')') rest := by
  induction cs generalizing done depth with
  | nil => simp
  | cons c cs ih =>
    have hstart : ∀ start, start <+: cs →
        (c :: start).count ')' ≤ depth + (c :: start).count '(' :=
      fun start hs => h (c :: start) (List.cons_prefix_cons.mpr ⟨rfl, hs⟩)
    rw [List.cons_append, List.reverse_cons, List.append_assoc, List.singleton_append]
    by_cases ho : c = '('
    · subst ho
      have hopened : ∀ start, start <+: cs → start.count ')' ≤ depth + 1 + start.count '(' := by
        intro start hs
        have hs := hstart start hs
        simp only [List.count_cons_self, List.count_cons_of_ne (show '(' ≠ ')' by decide)] at hs
        omega
      rw [matchedFrom_open, ih _ _ hopened, List.count_cons_self,
        List.count_cons_of_ne (by decide)]
      congr 1
      omega
    · by_cases hc : c = ')'
      · subst hc
        simp only [List.count_cons_self, List.count_cons_of_ne (show ')' ≠ '(' by decide)]
          at hstart ⊢
        obtain ⟨depth, rfl⟩ : ∃ inner, depth = inner + 1 := by
          have hfirst := hstart [] List.nil_prefix
          simp only [List.count_nil] at hfirst
          exact ⟨depth - 1, by omega⟩
        have hclosed : ∀ start, start <+: cs → start.count ')' ≤ depth + start.count '(' := by
          intro start hs
          have hs := hstart start hs
          omega
        rw [matchedFrom_close, ih _ _ hclosed]
        congr 1
        omega
      · simp only [List.count_cons_of_ne ho, List.count_cons_of_ne hc] at hstart ⊢
        rw [matchedFrom_other ho hc, ih _ _ hstart]

theorem callArguments_append {args : Chars} (h : Balanced args) (rest : Chars) :
    callArguments (args ++ ')' :: rest) = trim args := by
  have hmatched := matchedFrom_append [] 0 (')' :: rest) (by simpa using h.2)
  have hdepth : 0 + args.count '(' - args.count ')' = 0 := by
    rw [h.1]
    omega
  rw [callArguments, hmatched, hdepth]
  simp [matchedFrom]

end Statement

namespace Text

theorem literal?_append (word rest : Chars) : literal? word (word ++ rest) = some rest := by
  simp [literal?]

theorem char?_none {c : Char} {cs : Chars} (h : cs.head? ≠ some c) : char? c cs = none := by
  cases cs with
  | nil => rfl
  | cons d rest => exact if_neg fun hd => h (by rw [hd]; rfl)

section Closing

variable {c : Char} {cs : Chars} (h : c ∉ cs) (rest : Chars)

include h

theorem takeWhile_ne : (cs ++ c :: rest).takeWhile (· ≠ c) = cs := by
  have hpass : ∀ d ∈ cs, decide (d ≠ c) = true := by
    intro d hd
    exact decide_eq_true (ne_of_mem_of_not_mem hd h)
  rw [List.takeWhile_append_of_pos hpass]
  simp

theorem dropWhile_ne : (cs ++ c :: rest).dropWhile (· ≠ c) = c :: rest := by
  have hpass : ∀ d ∈ cs, decide (d ≠ c) = true := by
    intro d hd
    exact decide_eq_true (ne_of_mem_of_not_mem hd h)
  rw [List.dropWhile_append_of_pos hpass]
  simp

end Closing

end Text

theorem isTypeChar_of_isBlank {c : Char} (h : isBlank c = true) : isTypeChar c = false := by
  have hc : c ≠ ':' := by
    rintro rfl
    cases h
  have hp : c ≠ '.' := by
    rintro rfl
    cases h
  simp [isTypeChar, isWord_of_isBlank h, hc, hp]

abbrev Allocator := { f : String // f ∈ allocators }

def IsTypeName (cs : Chars) : Prop := cs ≠ [] ∧ ∀ c ∈ cs, isTypeChar c = true

instance (cs : Chars) : Decidable (IsTypeName cs) :=
  decidable_of_iff (cs ≠ [] ∧ cs.all isTypeChar = true)
    (and_congr_right fun _ => List.all_eq_true)

abbrev TypeName := { cs : Chars // IsTypeName cs }

abbrev CastText := { cs : Chars // IsInner cs ∧ ')' ∉ cs }

abbrev ArgumentText := { cs : Chars // IsInner cs ∧ Statement.Balanced cs }

/-- The number of elements of an array, which is not blank. -/
abbrev CountText := { cs : Chars // IsInner cs ∧ ']' ∉ cs ∧ trim cs ≠ [] }

theorem Allocator.isName (f : Allocator) : IsName f.1.toList := by
  have hall : ∀ f ∈ allocators, IsName f.toList := by decide +kernel
  exact hall f.1 f.2

theorem Allocator.isInner (f : Allocator) : IsInner f.1.toList := Name.isInner ⟨_, f.isName⟩

theorem TypeName.isInner (type : TypeName) : IsInner type.1 :=
  .of_class (by decide) (by decide) (by decide) type.2.2

theorem TypeName.not_blank (type : TypeName) {c : Char} (hc : c ∈ type.1) : isBlank c = false := by
  by_contra hb
  have hno := isTypeChar_of_isBlank (by simpa using hb)
  rw [type.2.2 c hc] at hno
  cases hno

/-- What is written after the equals sign. -/
inductive Initializer where
  /-- `malloc(args)` -/
  | call (f : Allocator) (gap : Spacing) (args : ArgumentText)
  /-- `(cast) malloc(args)` -/
  | castCall (cast : CastText) (after : Spacing) (f : Allocator) (gap : Spacing)
      (args : ArgumentText)
  /-- `new Type(args)` -/
  | construct (space : Space) (type : TypeName) (gap : Spacing) (args : ArgumentText)
  /-- `new Type[count]` -/
  | constructArray (space : Space) (type : TypeName) (gap : Spacing) (count : CountText)
  /-- `new Type` -/
  | constructPlain (space : Space) (type : TypeName)

namespace Initializer

/-- The text of an initializer. -/
def chars : Initializer → Chars
  | call f gap args => f.1.toList ++ (gap.1 ++ '(' :: (args.1 ++ [')']))
  | castCall cast after f gap args =>
    '(' :: (cast.1 ++ ')' :: (after.1 ++ (f.1.toList ++ (gap.1 ++ '(' :: (args.1 ++ [')'])))))
  | construct space type gap args =>
    "new".toList ++ (space.1.1 ++ (type.1 ++ (gap.1 ++ '(' :: (args.1 ++ [')']))))
  | constructArray space type gap count =>
    "new".toList ++ (space.1.1 ++ (type.1 ++ (gap.1 ++ '[' :: (count.1 ++ [']']))))
  | constructPlain space type => "new".toList ++ (space.1.1 ++ type.1)

/-- The maker for the form it is written in. -/
def maker : Initializer → Maker
  | call .. => .call
  | castCall .. => .castCall
  | construct .. => .construct
  | constructArray .. => .constructArray
  | constructPlain .. => .constructPlain

def primitive : Initializer → String
  | call f _ _ => f.1
  | castCall _ _ f _ _ => f.1
  | construct .. => "new"
  | constructArray .. => "new[]"
  | constructPlain .. => "new"

def arguments : Initializer → Chars
  | call _ _ args => trim args.1
  | castCall _ _ _ _ args => trim args.1
  | construct _ _ _ args => trim args.1
  | constructArray _ _ _ count => trim count.1
  | constructPlain .. => []

def isArray : Initializer → Bool
  | constructArray .. => true
  | _ => false

end Initializer

/-- The end of a statement, with or without its semicolon. -/
def IsEnd (cs : Chars) : Prop := cs = [] ∨ ∃ gap : Spacing, cs = gap.1 ++ [';']

section Readers

variable {c : Char} {rest : Chars}

theorem allocatorCall?_append (f : Allocator) (gap : Spacing) :
    allocatorCall? (f.1.toList ++ (gap.1 ++ '(' :: rest)) = some (f.1, rest) := by
  obtain ⟨f, hf⟩ := f
  have hopen : char? '(' (trimLeft (gap.1 ++ '(' :: rest)) = some rest := by
    rw [trimLeft_blanks_cons gap.blank (by decide)]
    rfl
  simp only [allocators, List.mem_cons, List.not_mem_nil, or_false] at hf
  rcases hf with rfl | rfl | rfl
  all_goals
    simp [allocatorCall?, allocators, opens?, literal?, hopen]

theorem cast?_append {cast : Chars} (hc : ')' ∉ cast) :
    cast? ('(' :: (cast ++ ')' :: rest)) = some (trimLeft rest) := by
  have hopen : ∀ cs, char? '(' ('(' :: cs) = some cs := fun _ => rfl
  have hclose : ∀ cs, char? ')' (')' :: cs) = some cs := fun _ => rfl
  simp only [cast?, hopen, dropWhile_ne hc, hclose, Option.bind_eq_bind, Option.bind_some]

/-- `new` and a type's name are read up to the end of the name. -/
theorem newType?_append (space : Space) (type : TypeName)
    (hr : ∀ c, rest.head? = some c → isTypeChar c = false) :
    newType? ("new".toList ++ (space.1.1 ++ (type.1 ++ rest))) = some rest := by
  have hleft : trimLeft (type.1 ++ rest) = type.1 ++ rest := by
    obtain ⟨c, cs, hcs⟩ := List.exists_cons_of_ne_nil type.2.1
    rw [hcs]
    exact trimLeft_cons (type.not_blank (by simp [hcs])) _
  rw [newType?, literal?_append]
  simp only [Option.bind_eq_bind, Option.bind_some, space.blanks?_append, hleft,
    run?_append type.2.1 type.2.2 hr]

theorem head_spacing (gap : Spacing) (hc : isTypeChar c = false) {d : Char}
    (hd : (gap.1 ++ c :: rest).head? = some d) : isTypeChar d = false :=
  head_blanks gap.blank (fun _ => isTypeChar_of_isBlank) hc hd

theorem pastTypeArguments_eq {α : Type} (f : Chars → Option α) {cs : Chars}
    (h : (trimLeft cs).head? ≠ some '<') : pastTypeArguments f cs = f cs := by
  simp [pastTypeArguments, char?_none h]

theorem opening?_none {cs : Chars} (h : (trimLeft cs).head? ≠ some '(') : opening? cs = none :=
  char?_none h

theorem elementCount?_none {cs : Chars} (h : (trimLeft cs).head? ≠ some '[') :
    elementCount? cs = none := by
  simp [elementCount?, char?_none h]

theorem elementCount?_append {count : Chars} (gap : Spacing) (hk : ']' ∉ count)
    (hne : count ≠ []) :
    elementCount? (gap.1 ++ '[' :: (count ++ ']' :: rest)) = some (trim count) := by
  have hopen : char? '[' (trimLeft (gap.1 ++ '[' :: (count ++ ']' :: rest))) =
      some (count ++ ']' :: rest) := by
    rw [trimLeft_blanks_cons gap.blank (by decide)]
    rfl
  have hclose : char? ']' (']' :: rest) = some rest := rfl
  simp only [elementCount?, hopen, takeWhile_ne hk, dropWhile_ne hk, hclose, Option.bind_eq_bind,
    Option.bind_some]
  simp [hne]

theorem opening?_append (gap : Spacing) : opening? (gap.1 ++ '(' :: rest) = some rest := by
  rw [opening?, trimLeft_blanks_cons gap.blank (by decide)]
  rfl

theorem head_trimLeft_spacing (gap : Spacing) (hb : isBlank c = false) (rest : Chars) :
    (trimLeft (gap.1 ++ c :: rest)).head? = some c := by
  rw [trimLeft_blanks_cons gap.blank hb]
  rfl

end Readers

/-- The characters that a maker may start with. -/
def Maker.starts : Maker → List Char
  | .call => ['m', 'c', 'r']
  | .castCall => ['(']
  | .construct | .constructArray | .constructPlain => ['n']

theorem Maker.read?_none {maker : Maker} {c : Char} (hc : c ∉ maker.starts) (var rest : Chars) :
    maker.read? var (c :: rest) = none := by
  have hnew : c ≠ 'n' → newType? (c :: rest) = none := by
    intro hn
    simp [newType?, literal?, hn.symm]
  cases maker with
  | call =>
    have hcall : allocatorCall? (c :: rest) = none := by
      simp only [starts, List.mem_cons, List.not_mem_nil, or_false, not_or] at hc
      obtain ⟨hm, hcc, hr⟩ := hc
      simp [allocatorCall?, allocators, opens?, literal?, Ne.symm hm, Ne.symm hcc, Ne.symm hr]
    simp [read?, hcall]
  | castCall =>
    have hparen : (c :: rest).head? ≠ some '(' := by simpa [starts] using hc
    simp [read?, cast?, char?_none hparen]
  | construct => simp [read?, hnew (by simpa [starts] using hc)]
  | constructArray => simp [read?, hnew (by simpa [starts] using hc)]
  | constructPlain => simp [read?, hnew (by simpa [starts] using hc)]

theorem Allocator.exists_cons (f : Allocator) :
    ∃ c ∈ Maker.starts .call, ∃ rest, f.1.toList = c :: rest := by
  have hm : "malloc".toList = 'm' :: "alloc".toList := by decide
  have hc : "calloc".toList = 'c' :: "alloc".toList := by decide
  have hr : "realloc".toList = 'r' :: "ealloc".toList := by decide
  obtain ⟨f, hf⟩ := f
  simp only [allocators, List.mem_cons, List.not_mem_nil, or_false] at hf
  rcases hf with rfl | rfl | rfl
  · exact ⟨'m', by decide, _, hm⟩
  · exact ⟨'c', by decide, _, hc⟩
  · exact ⟨'r', by decide, _, hr⟩

theorem Maker.read?_new {maker : Maker} (hn : 'n' ∉ maker.starts) (var rest : Chars) :
    maker.read? var ("new".toList ++ rest) = none := by
  have hnew : "new".toList = ['n', 'e', 'w'] := by decide
  rw [hnew]
  exact read?_none hn var _

theorem IsEnd.head {tail : Chars} (ht : IsEnd tail) {d : Char} (hd : tail.head? = some d) :
    isTypeChar d = false := by
  rcases ht with rfl | ⟨gap, rfl⟩
  · cases hd
  · exact head_spacing gap (by decide) hd

theorem IsEnd.not_equals {tail : Chars} (ht : IsEnd tail) : '=' ∉ tail := by
  rcases ht with rfl | ⟨gap, rfl⟩
  · exact List.not_mem_nil
  · simp [gap.isInner.not_mem]

theorem IsEnd.head_trimLeft {tail : Chars} (ht : IsEnd tail) {c : Char} (hc : c ≠ ';') :
    (trimLeft tail).head? ≠ some c := by
  rcases ht with rfl | ⟨gap, rfl⟩
  · simp [trimLeft]
  · rw [head_trimLeft_spacing gap (by decide)]
    simpa using hc.symm

namespace Initializer

variable {tail : Chars} (var : Chars)

/-- Each initializer is read by its own maker. -/
theorem read?_written (i : Initializer) (ht : IsEnd tail) :
    i.maker.read? var (i.chars ++ tail) =
      some ⟨var, i.primitive, i.arguments, i.isArray⟩ := by
  cases i with
  | call f gap args =>
    simp only [chars, List.append_assoc, List.cons_append, List.nil_append]
    rw [maker, Maker.read?, allocatorCall?_append]
    simp [Statement.callArguments_append args.2.2, primitive, arguments, isArray]
  | castCall cast after f gap args =>
    simp only [chars, List.append_assoc, List.cons_append, List.nil_append]
    rw [maker, Maker.read?, cast?_append cast.2.2, trimLeft_blanks after.blank,
      f.isName.trimLeft_append]
    simp [allocatorCall?_append, Statement.callArguments_append args.2.2, primitive, arguments,
      isArray]
  | construct space type gap args =>
    simp only [chars, List.append_assoc, List.cons_append, List.nil_append]
    rw [maker, Maker.read?, newType?_append space type fun _ => head_spacing gap (by decide)]
    have hhead := head_trimLeft_spacing gap (show isBlank '(' = false by decide)
      (args.1 ++ ')' :: tail)
    simp [pastTypeArguments_eq, hhead, opening?_append, Statement.callArguments_append args.2.2,
      primitive, arguments, isArray]
  | constructArray space type gap count =>
    have hne : count.1 ≠ [] := by
      intro he
      exact count.2.2.2 (by rw [he]; rfl)
    simp only [chars, List.append_assoc, List.cons_append, List.nil_append]
    rw [maker, Maker.read?, newType?_append space type fun _ => head_spacing gap (by decide)]
    have hhead := head_trimLeft_spacing gap (show isBlank '[' = false by decide)
      (count.1 ++ ']' :: tail)
    simp [pastTypeArguments_eq, hhead, elementCount?_append gap count.2.2.1 hne, primitive,
      arguments, isArray]
  | constructPlain space type =>
    simp only [chars, List.append_assoc]
    rw [maker, Maker.read?, newType?_append space type fun _ => ht.head]
    rfl

/-- And by no other, but that the plain form of `new` stops after the name of the type. -/
theorem read?_other (i : Initializer) (ht : IsEnd tail) {other : Maker} (hm : other ≠ i.maker)
    (hp : other ≠ .constructPlain) : other.read? var (i.chars ++ tail) = none := by
  -- Calls, casts and `new` differ in their first characters, the forms of `new` in their brackets.
  cases i with
  | call f gap args =>
    obtain ⟨c, hc, rest, hf⟩ := f.exists_cons
    have hapart : ∀ c ∈ Maker.starts .call, c ∉ Maker.starts .castCall ∧
        c ∉ Maker.starts .construct := by
      simp [Maker.starts]
    have hcs : c ∉ other.starts := by
      cases other with
      | call => exact absurd rfl hm
      | castCall => exact (hapart c hc).1
      | construct => exact (hapart c hc).2
      | constructArray => exact (hapart c hc).2
      | constructPlain => exact (hapart c hc).2
    rw [chars, hf, List.append_assoc, List.cons_append]
    exact Maker.read?_none hcs var _
  | castCall cast after f gap args =>
    rw [chars, List.cons_append]
    cases other with
    | castCall => exact absurd rfl hm
    | constructPlain => exact absurd rfl hp
    | call => exact Maker.read?_none (by decide) _ _
    | construct => exact Maker.read?_none (by decide) _ _
    | constructArray => exact Maker.read?_none (by decide) _ _
  | construct space type gap args =>
    simp only [chars, List.append_assoc, List.cons_append, List.nil_append]
    cases other with
    | call => exact Maker.read?_new (by decide) var _
    | castCall => exact Maker.read?_new (by decide) var _
    | construct => exact absurd rfl hm
    | constructArray =>
      rw [Maker.read?, newType?_append space type fun _ => head_spacing gap (by decide)]
      have hhead := head_trimLeft_spacing gap (show isBlank '(' = false by decide)
        (args.1 ++ ')' :: tail)
      simp [pastTypeArguments_eq, elementCount?_none, hhead]
    | constructPlain => exact absurd rfl hp
  | constructArray space type gap count =>
    simp only [chars, List.append_assoc, List.cons_append, List.nil_append]
    cases other with
    | call => exact Maker.read?_new (by decide) var _
    | castCall => exact Maker.read?_new (by decide) var _
    | construct =>
      rw [Maker.read?, newType?_append space type fun _ => head_spacing gap (by decide)]
      have hhead := head_trimLeft_spacing gap (show isBlank '[' = false by decide)
        (count.1 ++ ']' :: tail)
      simp [pastTypeArguments_eq, opening?_none, hhead]
    | constructArray => exact absurd rfl hm
    | constructPlain => exact absurd rfl hp
  | constructPlain space type =>
    simp only [chars, List.append_assoc]
    cases other with
    | call => exact Maker.read?_new (by decide) var _
    | castCall => exact Maker.read?_new (by decide) var _
    | construct =>
      rw [Maker.read?, newType?_append space type fun _ => ht.head]
      simp [pastTypeArguments_eq, opening?_none, ht.head_trimLeft]
    | constructArray =>
      rw [Maker.read?, newType?_append space type fun _ => ht.head]
      simp [pastTypeArguments_eq, elementCount?_none, ht.head_trimLeft]
    | constructPlain => exact absurd rfl hm

theorem isInner (i : Initializer) : IsInner i.chars := by
  cases i with
  | call f gap args => simp [chars, f.isInner, gap.isInner, args.2.1]
  | castCall cast after f gap args =>
    simp [chars, cast.2.1, after.isInner, f.isInner, gap.isInner, args.2.1]
  | construct space type gap args =>
    simp [chars, space.1.isInner, type.isInner, gap.isInner, args.2.1]
  | constructArray space type gap count =>
    simp [chars, space.1.isInner, type.isInner, gap.isInner, count.2.1]
  | constructPlain space type => simp [chars, space.1.isInner, type.isInner]

theorem trimLeft_chars (i : Initializer) (rest : Chars) :
    trimLeft (i.chars ++ rest) = i.chars ++ rest := by
  cases i with
  | call f gap args => rw [chars, List.append_assoc, f.isName.trimLeft_append]
  | castCall cast after f gap args => exact trimLeft_cons (by decide) _
  | construct space type gap args => exact trimLeft_cons (by decide) _
  | constructArray space type gap count => exact trimLeft_cons (by decide) _
  | constructPlain space type => exact trimLeft_cons (by decide) _

theorem trimRight_chars (i : Initializer) (before : Chars) :
    trimRight (before ++ i.chars) = before ++ i.chars := by
  obtain ⟨cs, c, hcs, hc⟩ : ∃ cs c, i.chars = cs ++ [c] ∧ isBlank c = false := by
    cases i with
    | call f gap args => exact ⟨f.1.toList ++ (gap.1 ++ '(' :: args.1), ')', by simp [chars], rfl⟩
    | castCall cast after f gap args =>
      exact ⟨'(' :: (cast.1 ++ ')' :: (after.1 ++ (f.1.toList ++ (gap.1 ++ '(' :: args.1)))), ')',
        by simp [chars], rfl⟩
    | construct space type gap args =>
      exact ⟨"new".toList ++ (space.1.1 ++ (type.1 ++ (gap.1 ++ '(' :: args.1))), ')',
        by simp [chars], rfl⟩
    | constructArray space type gap count =>
      exact ⟨"new".toList ++ (space.1.1 ++ (type.1 ++ (gap.1 ++ '[' :: count.1))), ']',
        by simp [chars], rfl⟩
    | constructPlain space type =>
      obtain ⟨cs, c, hcs⟩ := (List.eq_nil_or_concat type.1).resolve_left type.2.1
      rw [List.concat_eq_append] at hcs
      exact ⟨"new".toList ++ (space.1.1 ++ cs), c, by simp [chars, hcs],
        type.not_blank (by simp [hcs])⟩
  rw [hcs, ← List.append_assoc]
  exact trimRight_concat hc _

end Initializer

end HeapAudit
