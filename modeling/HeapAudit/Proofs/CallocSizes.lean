import HeapAudit.Proofs.ArgumentLists
import HeapAudit.Proofs.Counts
import HeapAudit.Proofs.Declarations

namespace HeapAudit
open Text

namespace Statement

variable {cs ds : Chars}

instance (cs : Chars) : Decidable (CommasInside cs) :=
  decidable_of_iff
    (∀ start ∈ cs.inits, start ++ [','] <+: cs → start.count ')' < start.count '(') (by
      constructor
      · intro h start hs
        exact h start ((List.mem_inits _ _).mpr ((List.prefix_append _ _).trans hs)) hs
      · intro h start _ hs
        exact h start hs)

theorem Balanced.level_eq (h : Balanced cs) : level cs = 0 := by
  rw [level, h.1, sub_self]

theorem Balanced.append (hc : Balanced cs) (hd : Balanced ds) : Balanced (cs ++ ds) := by
  refine ⟨by rw [List.count_append, List.count_append, hc.1, hd.1], ?_⟩
  intro start hs
  rcases List.prefix_or_prefix_of_prefix hs (List.prefix_append cs ds) with hin | ⟨rest, rfl⟩
  · exact hc.2 start hin
  · have hrest := hd.2 rest ((List.prefix_append_right_inj cs).mp hs)
    rw [List.count_append, List.count_append, hc.1]
    omega

end Statement

/-- One of the arguments of a call. -/
def IsOperand (cs : Chars) : Prop :=
  IsInner cs ∧ Statement.Balanced cs ∧ Statement.CommasInside cs

instance (cs : Chars) : Decidable (IsOperand cs) := inferInstanceAs (Decidable (_ ∧ _ ∧ _))

abbrev Operand := { cs : Chars // IsOperand cs }

namespace Operand

variable (a b : Operand)

/-- Two operands as they are written between the parentheses of a call. -/
def pair : Chars := a.1 ++ ", ".toList ++ b.1

theorem isInner_pair : IsInner (a.pair b) := by
  simp [pair, a.2.1, b.2.1]

theorem balanced_pair : Statement.Balanced (a.pair b) :=
  (a.2.2.1.append (by decide)).append b.2.2.1

theorem argumentList_pair : Statement.argumentList (trim (a.pair b)) = [trim a.1, trim b.1] :=
  Statement.argumentList_pair a.2.2.2 a.2.2.1.level_eq b.2.2.2

end Operand

/-- `v = calloc(a, b);` -/
def callocLine (v : Name) (a b : Operand) : Chars :=
  v.1 ++ " = calloc(".toList ++ a.pair b ++ ");".toList

theorem isSpacing_nil : IsSpacing [] := by decide

theorem isSpacing_space : IsSpacing [' '] := by decide

/-- The same line as a declaration. -/
def callocAssignment (v : Name) (a b : Operand) : Declaration where
  indent := ⟨[], isSpacing_nil⟩
  pointer := .bare
  var := v
  gap := ⟨[' '], isSpacing_space⟩
  after := ⟨[' '], isSpacing_space⟩
  init := .call ⟨"calloc", by decide⟩ ⟨[], isSpacing_nil⟩
    ⟨a.pair b, a.isInner_pair b, a.balanced_pair b⟩
  close := ⟨[], isSpacing_nil⟩
  trailing := ⟨[], isSpacing_nil⟩

theorem line_callocAssignment (v : Name) (a b : Operand) :
    (callocAssignment v a b).line = callocLine v a b := by
  simp [callocAssignment, callocLine, Declaration.line, Declaration.body, Pointer.assignment,
    Pointer.chars, Initializer.chars]

namespace LineScan

/-- The line acquires memory once, with both operands as its arguments. -/
theorem extract_calloc (language : Language) (v : Name) (a b : Operand) :
    ∃ e, (extract language {} (String.ofList (callocLine v a b))).filter (·.kind = .allocation) =
        [e] ∧
      e.var = String.ofList v.1 ∧ e.primitive = "calloc" ∧
      e.arguments = .text (String.ofList (trim (a.pair b))) := by
  obtain ⟨scopes, tail, htail, he⟩ := extract_segment language (callocAssignment v a b)
  rw [← line_callocAssignment, he, segmentEvents, List.filter_append, release?_filter, acquisition?,
    Declaration.findSome?_body _ htail]
  exact ⟨_, rfl, rfl, rfl, rfl⟩

end LineScan

namespace Size

variable {language : Language} {e : Event} {s : String}

/-- The product, or the size of one element where an operand is in doubt. -/
theorem estimate_calloc (hl : language.isCFamily = true) (hp : e.primitive = "calloc")
    (ha : e.arguments = .text s) :
    estimate language e = match ofCalloc s.toList with
      | .ok n => .ok (max 1 (n : Int))
      | .error _ => .ok (max 1 (language.elementSize : Int)) := by
  rw [estimate_text hl ha, hp]
  rfl

theorem ofCalloc_pair (a b : Operand) :
    ofCalloc (trim (a.pair b)) =
      (count a.1).bind fun n => (count b.1).bind fun size => .ok (n * size) := by
  have htrim : ∀ cs, count (trim cs) = count cs := by
    intro cs
    unfold count
    rw [trim_trim]
  rw [ofCalloc, a.argumentList_pair b]
  simp only [List.getD_cons_zero, List.getD_cons_succ, htrim]
  rfl

end Size

/-- `calloc` takes the product of what its operands count for, whichever comes first. -/
theorem calloc_size {language : Language} (hl : language.isCFamily = true) (v : Name)
    (a b : Operand) :
    ∃ e, (LineScan.extract language {} (String.ofList (callocLine v a b))).filter
          (·.kind = .allocation) = [e] ∧
      e.var = String.ofList v.1 ∧ e.primitive = "calloc" ∧
      (∀ m n, Size.Counts a.1 m → Size.Counts b.1 n →
        Size.estimate language e = .ok ((m * n : Nat) : Int)) ∧
      ∃ swapped, (LineScan.extract language {} (String.ofList (callocLine v b a))).filter
          (·.kind = .allocation) = [swapped] ∧
        Size.estimate language swapped = Size.estimate language e := by
  obtain ⟨e, he, hvar, hprimitive, harguments⟩ := LineScan.extract_calloc language v a b
  obtain ⟨swapped, hs, -, hprimitive', harguments'⟩ := LineScan.extract_calloc language v b a
  have hsize := Size.estimate_calloc hl hprimitive harguments
  have hsize' := Size.estimate_calloc hl hprimitive' harguments'
  rw [String.toList_ofList, Size.ofCalloc_pair] at hsize hsize'
  refine ⟨e, he, hvar, hprimitive, ?_, swapped, hs, ?_⟩
  · intro m n hm hn
    have hpos : 1 ≤ m * n := Nat.mul_pos hm.pos hn.pos
    rw [hsize, hm.count_eq, hn.count_eq]
    exact congrArg Except.ok (max_eq_right (by exact_mod_cast hpos))
  · rw [hsize, hsize']
    cases Size.count a.1 with
    | error d => cases Size.count b.1 <;> rfl
    | ok m =>
      cases Size.count b.1 with
      | error d => rfl
      | ok n => exact congrArg (fun k : Nat => Except.ok (max 1 (k : Int))) (Nat.mul_comm n m)

/-- An operand with a comma inside of its parentheses, which is no number. -/
def callOperand : Operand := ⟨['f', '(', '2', ',', ' ', '(', 'k', ')', ')'], by decide⟩

/-- Thirty, in digits of two scripts and with blanks around it. -/
def thirty : Operand := ⟨[' ', '٣', '0', ' '], by decide⟩

theorem calloc_size_thirty :
    ∃ e, (LineScan.extract .cpp {} "rows = calloc(f(2, (k)),  ٣0 );").filter
          (·.kind = .allocation) = [e] ∧
      Size.estimate .cpp e = .ok 30 ∧
      ∃ swapped, (LineScan.extract .cpp {} "rows = calloc( ٣0 , f(2, (k)));").filter
          (·.kind = .allocation) = [swapped] ∧
        Size.estimate .cpp swapped = .ok 30 := by
  let rows : Name := ⟨['r', 'o', 'w', 's'], by decide⟩
  have hone : Size.Counts callOperand.1 1 := .other (.inr ⟨'f', by decide, by decide +kernel⟩)
  have hdigits : (trim thirty.1).all isDigit = true := by decide +kernel
  have hvalue : max 1 (Nat.ofDigits 10 (Number.digitsOf (trim thirty.1)).reverse) = 30 := by
    decide +kernel
  have hthirty : Size.Counts thirty.1 30 :=
    hvalue ▸ .numeral (by decide) (List.all_eq_true.mp hdigits) (by decide)
  have hline : String.ofList (callocLine rows callOperand thirty) =
      "rows = calloc(f(2, (k)),  ٣0 );" := by decide
  have hswapped : String.ofList (callocLine rows thirty callOperand) =
      "rows = calloc( ٣0 , f(2, (k)));" := by decide
  obtain ⟨e, he, -, -, hsize, swapped, hs, hsame⟩ :=
    calloc_size (show Language.cpp.isCFamily = true from rfl) rows callOperand thirty
  rw [hline] at he
  rw [hswapped] at hs
  have hproduct := hsize 1 30 hone hthirty
  exact ⟨e, he, hproduct, swapped, hs, hsame.trans hproduct⟩

end HeapAudit
