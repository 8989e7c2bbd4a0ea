import HeapAudit.Proofs.PreOrder

namespace HeapAudit.Syntax

/-- A node of a tree: its root, or a node of the tree of a child. -/
inductive Node.Within (m : Node) : Node → Prop
  | root : Within m m
  | child {c n : Node} (hc : c ∈ n.children) (h : Within m c) : Within m n

/-- Every number in a tree is an integer, or is not known. -/
def Whole (source : Source) (n : Node) : Prop :=
  ∀ m : Node, m.Within n → m.kind = .number →
    numeral (source.text m) = .null ∨ ∃ k, numeral (source.text m) = .int k

theorem whole_of_children {source : Source} {n : Node}
    (hn : n.kind = .number →
      numeral (source.text n) = .null ∨ ∃ k, numeral (source.text n) = .int k)
    (hc : ∀ c ∈ n.children, Whole source c) : Whole source n := by
  intro m hm
  cases hm with
  | root => exact hn
  | child hin h => exact hc _ hin m h

theorem Whole.child {source : Source} {n c : Node} (h : Whole source n) (hc : c ∈ n.children) :
    Whole source c :=
  fun m hm => h m (.child hc hm)

/-- The integer that a node stands for: a number, or the sum or product of what its operands stand
for. -/
inductive Denotes (source : Source) : Node → Int → Prop
  | number {n : Node} {k : Int} (hk : n.kind = .number)
      (hread : numeral (source.text n) = .int k) : Denotes source n k
  | sum {n left right : Node} {a b : Int} (hk : n.kind = .binary)
      (ho : (n.child? .operator).map source.text = some "+") (hl : n.child? .left = some left)
      (hr : n.child? .right = some right) (ha : Denotes source left a)
      (hb : Denotes source right b) : Denotes source n (a + b)
  | product {n left right : Node} {a b : Int} (hk : n.kind = .binary)
      (ho : (n.child? .operator).map source.text = some "*") (hl : n.child? .left = some left)
      (hr : n.child? .right = some right) (ha : Denotes source left a)
      (hb : Denotes source right b) : Denotes source n (a * b)

section Combine

variable (operator : String) {a b : Value}

theorem combine_sum (x y : Int) : combine "+" (.int x) (.int y) = .ok (.int (x + y)) := rfl

theorem combine_product (x y : Int) : combine "*" (.int x) (.int y) = .ok (.int (x * y)) := rfl

/-- Operands that are not in double precision are combined if both are integers, and give no value
otherwise. -/
theorem combine_whole (ha : ∀ x, a ≠ .real x) (hb : ∀ x, b ≠ .real x) :
    combine operator a b = .ok .null ∨
      ∃ x y, a = .int x ∧ b = .int y ∧ (operator = "+" ∨ operator = "*") := by
  cases a with
  | int x =>
    cases b with
    | int y =>
      by_cases hsum : operator = "+"
      · exact .inr ⟨x, y, rfl, rfl, .inl hsum⟩
      · by_cases hproduct : operator = "*"
        · exact .inr ⟨x, y, rfl, rfl, .inr hproduct⟩
        · exact .inl (by simp [combine, Value.isNumber, hsum, hproduct])
    | real y => exact absurd rfl (hb y)
    | _ => exact .inl rfl
  | real x => exact absurd rfl (ha x)
  | _ => exact .inl rfl

theorem combine_ok (ha : ∀ x, a ≠ .real x) (hb : ∀ x, b ≠ .real x) :
    ∃ v, combine operator a b = .ok v := by
  rcases combine_whole operator ha hb with hnull | ⟨x, y, rfl, rfl, rfl | rfl⟩
  · exact ⟨_, hnull⟩
  · exact ⟨_, combine_sum x y⟩
  · exact ⟨_, combine_product x y⟩

end Combine

def Node.operands (n : Node) : List Node := [.left, .right].filterMap n.child?

theorem Node.mem_children_of_operands {n c : Node} (h : c ∈ n.operands) : c ∈ n.children := by
  obtain ⟨f, -, hc⟩ := List.mem_filterMap.mp h
  exact Node.child?_mem hc

/-- How deep operations are nested in a node as operands. -/
def Node.depth (n : Node) : Nat :=
  if n.kind = .binary then n.operands.attach.foldr (fun c d => max c.val.depth d) 0 + 1 else 0
termination_by sizeOf n
decreasing_by exact Node.sizeOf_lt_of_mem (Node.mem_children_of_operands c.property)

section Evaluate

variable {source : Source} {n left right : Node} {levels : Nat}

theorem Node.depth_eq (hk : n.kind = .binary) :
    n.depth = n.operands.foldr (fun c d => max c.depth d) 0 + 1 := by
  rw [Node.depth, if_pos hk,
    List.foldr_attach (f := fun (c : Node) (d : Nat) => max c.depth d)]

theorem Node.depth_binary (hk : n.kind = .binary) (hl : n.child? .left = some left)
    (hr : n.child? .right = some right) : n.depth = max left.depth right.depth + 1 := by
  simp [Node.depth_eq hk, Node.operands, hl, hr]

theorem Node.depth_other (hk : n.kind ≠ .binary) : n.depth = 0 := by
  rw [Node.depth, if_neg hk]

theorem Node.depth_pos (hk : n.kind = .binary) : 0 < n.depth := by
  rw [Node.depth_eq hk]
  exact Nat.succ_pos _

theorem Node.depth_operand {c : Node} (hk : n.kind = .binary) (hc : c ∈ n.operands) :
    c.depth < n.depth := by
  rw [Node.depth_eq hk, Nat.lt_succ_iff]
  generalize n.operands = operands at hc ⊢
  induction operands with
  | nil => cases hc
  | cons first rest ih =>
    rw [List.foldr_cons]
    rcases List.mem_cons.mp hc with rfl | hrest
    · exact Nat.le_max_left _ _
    · exact (ih hrest).trans (Nat.le_max_right _ _)

theorem evaluate_number (hk : n.kind = .number) :
    evaluate source levels n = numeral (source.text n) := by
  rw [evaluate.eq_def, hk]

theorem evaluate_identifier (hk : n.kind = .identifier) :
    evaluate source levels n = .text (source.text n) := by
  rw [evaluate.eq_def, hk]

theorem evaluate_binary (hk : n.kind = .binary) (hl : n.child? .left = some left)
    (hr : n.child? .right = some right) :
    evaluate source (levels + 1) n =
      (combine (operatorText source n) (evaluate source levels left)
        (evaluate source levels right)).toOption.getD .null := by
  rw [evaluate.eq_def, hk]
  simp only [hl, hr]

theorem evaluate_too_deep (hk : n.kind = .binary) : evaluate source 0 n = .null := by
  rw [evaluate.eq_def, hk]

theorem evaluate_missing (hk : n.kind = .binary)
    (h : n.child? .left = none ∨ n.child? .right = none) : evaluate source levels n = .null := by
  rw [evaluate.eq_def, hk]
  cases levels with
  | zero => rfl
  | succ levels =>
    dsimp only
    split
    · rename_i hl hr
      simp [hl, hr] at h
    · rfl

theorem evaluate_other (h : n.kind ∉ [.number, .identifier, .binary]) :
    evaluate source levels n = .null := by
  simp only [List.mem_cons, List.not_mem_nil, or_false, not_or] at h
  rw [evaluate.eq_def]
  split
  · exact absurd ‹_› h.1
  · exact absurd ‹_› h.2.1
  · exact absurd ‹_› h.2.2
  · rfl

theorem operatorText_iff {text : String} (ht : text ≠ "") :
    operatorText source n = text ↔ (n.child? .operator).map source.text = some text := by
  unfold operatorText
  cases (n.child? .operator).map source.text with
  | none => simp [ht.symm]
  | some written => simp

/-- A sum or product that is not nested too deep has the value it stands for. -/
theorem Denotes.evaluate_eq {k : Int} (h : Denotes source n k) (hdepth : n.depth ≤ levels) :
    evaluate source levels n = .int k := by
  induction h generalizing levels with
  | number hk hread => rw [evaluate_number hk, hread]
  | sum hk ho hl hr ha hb iha ihb =>
    rw [Node.depth_binary hk hl hr] at hdepth
    obtain ⟨room, rfl⟩ : ∃ room, levels = room + 1 := ⟨levels - 1, by omega⟩
    have hplus := (operatorText_iff (by decide)).mpr ho
    rw [evaluate_binary hk hl hr, iha (by omega), ihb (by omega), hplus, combine_sum]
    rfl
  | product hk ho hl hr ha hb iha ihb =>
    rw [Node.depth_binary hk hl hr] at hdepth
    obtain ⟨room, rfl⟩ : ∃ room, levels = room + 1 := ⟨levels - 1, by omega⟩
    have hstar := (operatorText_iff (by decide)).mpr ho
    rw [evaluate_binary hk hl hr, iha (by omega), ihb (by omega), hstar, combine_product]
    rfl

theorem Denotes.kind_ne {k : Int} (h : Denotes source n k) : n.kind ≠ .identifier := by
  cases h with
  | number hk => simp [hk]
  | sum hk => simp [hk]
  | product hk => simp [hk]

/-- A node stands for an integer and is not nested too deep, is a name, or has no value. -/
def Settled (source : Source) (levels : Nat) (n : Node) : Prop :=
  (∃ k, Denotes source n k ∧ n.depth ≤ levels) ∨ n.kind = .identifier ∨
    evaluate source levels n = .null

namespace Settled

theorem value (h : Settled source levels n) :
    (∃ k, (Denotes source n k ∧ n.depth ≤ levels) ∧ evaluate source levels n = .int k) ∨
      (∃ s, evaluate source levels n = .text s) ∨ evaluate source levels n = .null := by
  rcases h with ⟨k, hd, hdepth⟩ | hk | hnull
  · exact .inl ⟨k, ⟨hd, hdepth⟩, hd.evaluate_eq hdepth⟩
  · exact .inr (.inl ⟨_, evaluate_identifier hk⟩)
  · exact .inr (.inr hnull)

theorem denotes (h : Settled source levels n) {k : Int} (he : evaluate source levels n = .int k) :
    Denotes source n k ∧ n.depth ≤ levels := by
  rcases h.value with ⟨m, hm, hv⟩ | ⟨s, hv⟩ | hv
  · rw [he] at hv
    cases hv
    exact hm
  · simp [hv] at he
  · simp [hv] at he

theorem ne_real (h : Settled source levels n) (x : Number.Binary64) :
    evaluate source levels n ≠ .real x := by
  rcases h.value with ⟨m, -, hv⟩ | ⟨s, hv⟩ | hv <;> simp [hv]

/-- Two operands that are settled settle their node. -/
theorem binary (hk : n.kind = .binary) (hl : n.child? .left = some left)
    (hr : n.child? .right = some right) (hleft : Settled source levels left)
    (hright : Settled source levels right) : Settled source (levels + 1) n := by
  rcases combine_whole (operatorText source n) hleft.ne_real hright.ne_real with
    hnull | ⟨x, y, hx, hy, ho⟩
  · exact .inr (.inr (by rw [evaluate_binary hk hl hr, hnull]; rfl))
  · obtain ⟨hx, hxdepth⟩ := hleft.denotes hx
    obtain ⟨hy, hydepth⟩ := hright.denotes hy
    have hdepth : n.depth ≤ levels + 1 := by
      rw [Node.depth_binary hk hl hr]
      omega
    rcases ho with hplus | hstar
    · have ho := (operatorText_iff (by decide)).mp hplus
      exact .inl ⟨x + y, .sum hk ho hl hr hx hy, hdepth⟩
    · have ho := (operatorText_iff (by decide)).mp hstar
      exact .inl ⟨x * y, .product hk ho hl hr hx hy, hdepth⟩

end Settled

theorem Whole.settled_leaf (h : Whole source n) (hk : n.kind ≠ .binary) :
    Settled source levels n := by
  by_cases hname : n.kind = .identifier
  · exact .inr (.inl hname)
  · by_cases hnumber : n.kind = .number
    · rcases h n .root hnumber with hread | ⟨k, hread⟩
      · exact .inr (.inr (by rw [evaluate_number hnumber, hread]))
      · exact .inl ⟨k, .number hnumber hread, by simp [Node.depth_other hk]⟩
    · exact .inr (.inr (evaluate_other (by simp [hk, hname, hnumber])))

/-- In a tree without numbers in double precision every node is settled. -/
theorem Whole.settled (h : Whole source n) (levels : Nat) : Settled source levels n := by
  induction levels generalizing n with
  | zero =>
    by_cases hk : n.kind = .binary
    · exact .inr (.inr (evaluate_too_deep hk))
    · exact h.settled_leaf hk
  | succ levels ih =>
    by_cases hk : n.kind = .binary
    · cases hl : n.child? .left with
      | none => exact .inr (.inr (evaluate_missing hk (.inl hl)))
      | some left =>
        cases hr : n.child? .right with
        | none => exact .inr (.inr (evaluate_missing hk (.inr hr)))
        | some right =>
          have hleft := ih (h.child (Node.child?_mem hl))
          have hright := ih (h.child (Node.child?_mem hr))
          exact .binary hk hl hr hleft hright
    · exact h.settled_leaf hk

/-- A doubt about an operation is that an operand is missing, a doubt about an operand, or one about
combining the two. -/
theorem mem_doubts_binary {d : Doubt} (hk : n.kind = .binary)
    (hd : d ∈ doubts source (levels + 1) n) :
    d = .missing ∨ (∃ c ∈ n.operands, d ∈ doubts source levels c) ∨
      ∃ left right, n.child? .left = some left ∧ n.child? .right = some right ∧
        combine (operatorText source n) (evaluate source levels left)
          (evaluate source levels right) = .error d := by
  rw [doubts.eq_def, hk] at hd
  simp only [List.mem_append] at hd
  rcases hd with (hleft | hright) | hown
  · split at hleft
    · rename_i left hl
      exact .inr (.inl ⟨left, List.mem_filterMap.mpr ⟨.left, by simp, hl⟩, hleft⟩)
    · exact .inl (List.mem_singleton.mp hleft)
  · split at hright
    · rename_i right hr
      exact .inr (.inl ⟨right, List.mem_filterMap.mpr ⟨.right, by simp, hr⟩, hright⟩)
    · exact .inl (List.mem_singleton.mp hright)
  · split at hown
    · rename_i left right hl hr
      split at hown
      · cases hown
      · rename_i d' hc
        obtain rfl := List.mem_singleton.mp hown
        exact .inr (.inr ⟨left, right, hl, hr, hc⟩)
    · cases hown

theorem kind_of_mem_doubts {d : Doubt} (hd : d ∈ doubts source levels n) : n.kind = .binary := by
  rw [doubts.eq_def] at hd
  split at hd
  · assumption
  · assumption
  · cases hd

/-- Nothing fails in such a tree except that an operand is missing, or that operations are nested
too deep. -/
theorem Whole.doubts_cause (h : Whole source n) {d : Doubt} (hd : d ∈ doubts source levels n) :
    d = .missing ∨ d = .tooDeep ∧ levels < n.depth := by
  have hk := kind_of_mem_doubts hd
  induction levels generalizing n with
  | zero =>
    rw [doubts.eq_def, hk] at hd
    exact .inr ⟨List.mem_singleton.mp hd, Node.depth_pos hk⟩
  | succ levels ih =>
    rcases mem_doubts_binary hk hd with hmissing | ⟨c, hc, hd⟩ | ⟨left, right, hl, hr, hc⟩
    · exact .inl hmissing
    · have hlt := Node.depth_operand hk hc
      have hwhole := h.child (Node.mem_children_of_operands hc)
      rcases ih hwhole hd (kind_of_mem_doubts hd) with hmissing | ⟨hdeep, hdepth⟩
      · exact .inl hmissing
      · exact .inr ⟨hdeep, by omega⟩
    · have hleft := (h.child (Node.child?_mem hl)).settled levels
      have hright := (h.child (Node.child?_mem hr)).settled levels
      obtain ⟨v, hv⟩ := combine_ok (operatorText source n) hleft.ne_real hright.ne_real
      rw [hc] at hv
      cases hv

end Evaluate

/-- Where no number is in double precision and operands are evaluated so many levels deep, an
argument has an integer as its value exactly if it stands for that integer and is not nested deeper,
its text exactly if it is a name, and otherwise no value; and nothing fails but for operands that
are missing and operations that are nested too deep. -/
theorem evaluate_denotes {source : Source} {n : Node} (h : Whole source n) (levels : Nat) :
    (∀ k, evaluate source levels n = .int k ↔ Denotes source n k ∧ n.depth ≤ levels) ∧
      ((evaluate source levels n).isNumber = true ↔
        ∃ k, Denotes source n k ∧ n.depth ≤ levels) ∧
      (∀ s, evaluate source levels n = .text s ↔ n.kind = .identifier ∧ s = source.text n) ∧
      (evaluate source levels n = .null ↔
        n.kind ≠ .identifier ∧ ¬ ∃ k, Denotes source n k ∧ n.depth ≤ levels) ∧
      ∀ d ∈ doubts source levels n, d = .missing ∨ d = .tooDeep ∧ levels < n.depth := by
  have hsettled := h.settled levels
  have hcause : ∀ d ∈ doubts source levels n, d = .missing ∨ d = .tooDeep ∧ levels < n.depth :=
    fun d => h.doubts_cause
  refine ⟨fun k => ⟨hsettled.denotes, fun hd => hd.1.evaluate_eq hd.2⟩, ?_⟩
  rcases hsettled with ⟨m, hm, hdepth⟩ | hk | hnull
  · have hsome : ∃ k, Denotes source n k ∧ n.depth ≤ levels := ⟨m, hm, hdepth⟩
    rw [hm.evaluate_eq hdepth]
    exact ⟨by simp [Value.isNumber, hsome], by simp [hm.kind_ne], by simp [hsome], hcause⟩
  · have hnone : ¬ ∃ k, Denotes source n k ∧ n.depth ≤ levels := fun ⟨k, hd, _⟩ => hd.kind_ne hk
    rw [evaluate_identifier hk]
    exact ⟨by simp [Value.isNumber, hnone], by simp [hk, eq_comm], by simp [hk], hcause⟩
  · have hname : n.kind ≠ .identifier := by
      intro hk
      rw [evaluate_identifier hk] at hnull
      cases hnull
    have hnone : ¬ ∃ k, Denotes source n k ∧ n.depth ≤ levels := by
      rintro ⟨k, hd, hdepth⟩
      rw [hd.evaluate_eq hdepth] at hnull
      cases hnull
    rw [hnull]
    exact ⟨by simp [Value.isNumber, hnone], by simp [hname], by simp [hname, hnone], hcause⟩

theorem whole_leaf {source : Source} {kind : Kind} {field : Field} {first past : Int}
    (hn : kind = .number → ∃ k, numeral (source.text (.leaf kind field first past)) = .int k) :
    Whole source (.leaf kind field first past) :=
  whole_of_children (fun hk => .inr (hn hk)) (by simp [Node.leaf])

namespace Sums

/-- `2*0x10+3` -/
def source : Source := .ofText "2*0x10+3"

def product : Node :=
  ⟨.binary, true, some .left, 0, 6, 0,
    [.leaf .number .left 0 1, .leaf (.other "*") .operator 1 2, .leaf .number .right 2 6]⟩

def sum : Node :=
  ⟨.binary, true, none, 0, 8, 0,
    [product, .leaf (.other "+") .operator 6 7, .leaf .number .right 7 8]⟩

theorem whole : Whole source sum := by
  have hproduct : Whole source product := by
    refine whole_of_children (by simp [product]) ?_
    simp only [product, List.forall_mem_cons]
    exact ⟨whole_leaf fun _ => ⟨2, rfl⟩, whole_leaf (by simp), whole_leaf fun _ => ⟨16, rfl⟩,
      by simp⟩
  refine whole_of_children (by simp [sum]) ?_
  simp only [sum, List.forall_mem_cons]
  exact ⟨hproduct, whole_leaf (by simp), whole_leaf fun _ => ⟨3, rfl⟩, by simp⟩

end Sums

theorem evaluate_denotes_sum :
    evaluate Sums.source 2 Sums.sum = .int 35 ∧ evaluate Sums.source 1 Sums.sum = .null := by
  have htwo : Denotes Sums.source (.leaf .number .left 0 1) 2 := .number rfl rfl
  have hsixteen : Denotes Sums.source (.leaf .number .right 2 6) 16 := .number rfl rfl
  have hthree : Denotes Sums.source (.leaf .number .right 7 8) 3 := .number rfl rfl
  have hproduct : Denotes Sums.source Sums.product (2 * 16) :=
    .product rfl (by decide +kernel) rfl rfl htwo hsixteen
  have hsum : Denotes Sums.source Sums.sum (2 * 16 + 3) :=
    .sum rfl (by decide +kernel) rfl rfl hproduct hthree
  have hdepth : Sums.sum.depth = 2 := by
    rw [Node.depth_binary rfl rfl rfl, Node.depth_binary rfl rfl rfl]
    simp [Node.depth_other, Node.leaf]
  obtain ⟨hvalue, -⟩ := evaluate_denotes Sums.whole 2
  obtain ⟨-, -, -, hnull, -⟩ := evaluate_denotes Sums.whole 1
  refine ⟨(hvalue 35).mpr ⟨hsum, hdepth.le⟩, hnull.mpr ⟨by decide, ?_⟩⟩
  rintro ⟨k, -, hfits⟩
  omega

namespace Ones

/-- `1+1` -/
def source : Source := .ofText "1+1"

/-- A sum of ones with as many signs as is said. All of it is read off the same text. -/
def sum : Nat → Node
  | 0 => .leaf .number .left 0 1
  | signs + 1 =>
    ⟨.binary, true, some .left, 0, 3, 0,
      [sum signs, .leaf (.other "+") .operator 1 2, .leaf .number .right 2 3]⟩

theorem whole (signs : Nat) : Whole source (sum signs) := by
  induction signs with
  | zero => exact whole_leaf fun _ => ⟨1, rfl⟩
  | succ signs ih =>
    refine whole_of_children (by simp [sum]) ?_
    simp only [sum, List.forall_mem_cons]
    exact ⟨ih, whole_leaf (by simp), whole_leaf fun _ => ⟨1, rfl⟩, by simp⟩

theorem child_left (signs : Nat) : (sum (signs + 1)).child? .left = some (sum signs) := by
  cases signs <;> rfl

theorem child_right (signs : Nat) :
    (sum (signs + 1)).child? .right = some (.leaf .number .right 2 3) := by
  cases signs <;> rfl

theorem child_operator (signs : Nat) :
    (sum (signs + 1)).child? .operator = some (.leaf (.other "+") .operator 1 2) := by
  cases signs <;> rfl

theorem denotes (signs : Nat) : Denotes source (sum signs) (signs + 1) := by
  induction signs with
  | zero => exact .number rfl rfl
  | succ signs ih =>
    have ho : ((sum (signs + 1)).child? .operator).map source.text = some "+" := by
      rw [child_operator]
      decide +kernel
    exact .sum rfl ho (child_left signs) (child_right signs) ih (.number rfl rfl)

theorem depth_sum (signs : Nat) : (sum signs).depth = signs := by
  induction signs with
  | zero => exact Node.depth_other (by decide)
  | succ signs ih =>
    rw [Node.depth_binary rfl (child_left signs) (child_right signs), ih]
    simp [Node.depth_other, Node.leaf]

end Ones

/-- A sum that is nested too deep stands for a number, and has no value. -/
theorem evaluate_given_up : Denotes Ones.source (Ones.sum 1200) 1201 ∧
    evaluate Ones.source maxNesting (Ones.sum 1200) = .null := by
  refine ⟨Ones.denotes 1200, ?_⟩
  rcases (Ones.whole 1200).settled maxNesting with ⟨k, -, hdepth⟩ | hk | hnull
  · rw [Ones.depth_sum] at hdepth
    exact absurd hdepth (by decide)
  · cases hk
  · exact hnull

end HeapAudit.Syntax
