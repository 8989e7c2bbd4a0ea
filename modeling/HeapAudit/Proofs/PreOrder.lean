import HeapAudit.Syntax.Walk
import Mathlib.Data.List.Chain
import Mathlib.Data.List.TakeWhile
import Mathlib.Logic.Function.Iterate

namespace HeapAudit.Syntax

/-- A node of a tree with the nodes around it, its parent first and the root last. -/
structure Spot where
  node : Node
  ancestors : List Node

mutual

/-- The nodes of a tree in pre-order; `ancestors` are the nodes around the tree. -/
def Node.spots (ancestors : List Node) : Node → List Spot
  | ⟨kind, named, field, first, past, row, children⟩ =>
    let n : Node := ⟨kind, named, field, first, past, row, children⟩
    ⟨n, ancestors⟩ :: Node.spotsAll (n :: ancestors) children

def Node.spotsAll (ancestors : List Node) : List Node → List Spot
  | [] => []
  | n :: ns => n.spots ancestors ++ Node.spotsAll ancestors ns

end

/-- Right above a node, among some nodes, is the node whose child it is. -/
def Spot.HasParent (spots : List Spot) (s : Spot) : Prop :=
  ∃ parent ∈ spots, s.node ∈ parent.node.children ∧
    s.ancestors = parent.node :: parent.ancestors

theorem Spot.HasParent.mono {spots spots' : List Spot} (hsub : spots ⊆ spots') {s : Spot}
    (h : s.HasParent spots) : s.HasParent spots' := by
  obtain ⟨parent, hp, hrest⟩ := h
  exact ⟨parent, hsub hp, hrest⟩

mutual

/-- Every node of a tree but its root has its parent in the tree. -/
theorem Node.spots_parent (n : Node) {ancestors : List Node} {s : Spot}
    (hs : s ∈ n.spots ancestors) : s = ⟨n, ancestors⟩ ∨ s.HasParent (n.spots ancestors) := by
  cases n with
  | mk kind named field first past row children =>
    rw [Node.spots] at hs ⊢
    rcases List.mem_cons.mp hs with rfl | hs
    · exact .inl rfl
    · right
      rcases Node.spotsAll_parent children hs with ⟨hchild, habove⟩ | h
      · exact ⟨_, List.mem_cons_self, hchild, habove⟩
      · exact h.mono (List.subset_cons_self _ _)

theorem Node.spotsAll_parent (ns : List Node) {ancestors : List Node} {s : Spot}
    (hs : s ∈ Node.spotsAll ancestors ns) :
    (s.node ∈ ns ∧ s.ancestors = ancestors) ∨ s.HasParent (Node.spotsAll ancestors ns) := by
  cases ns with
  | nil => cases hs
  | cons n ns =>
    rw [Node.spotsAll] at hs ⊢
    rcases List.mem_append.mp hs with hs | hs
    · rcases Node.spots_parent n hs with rfl | h
      · exact .inl ⟨List.mem_cons_self, rfl⟩
      · exact .inr (h.mono (List.subset_append_left _ _))
    · rcases Node.spotsAll_parent ns hs with ⟨hn, ha⟩ | h
      · exact .inl ⟨List.mem_cons_of_mem _ hn, ha⟩
      · exact .inr (h.mono (List.subset_append_right _ _))

end

/-- A path in a tree: each node is a child of the next one. -/
def IsPath (path : List Node) : Prop := path.IsChain fun child parent => child ∈ parent.children

/-- A node and its ancestors are a path up to the root. -/
theorem Node.spots_path {root : Node} {s : Spot} (hs : s ∈ root.spots []) :
    IsPath (s.node :: s.ancestors) ∧ (s.node :: s.ancestors).getLast? = some root := by
  obtain ⟨node, ancestors⟩ := s
  induction ancestors generalizing node with
  | nil =>
    rcases root.spots_parent hs with he | ⟨parent, -, -, habove⟩
    · cases he
      exact ⟨List.isChain_singleton root, rfl⟩
    · cases habove
  | cons above ancestors ih =>
    rcases root.spots_parent hs with he | ⟨⟨parent, higher⟩, hp, hchild, habove⟩
    · cases he
    · obtain ⟨rfl, rfl⟩ := List.cons.inj habove
      obtain ⟨hpath, hlast⟩ := ih above hp
      exact ⟨List.isChain_cons_cons.mpr ⟨hchild, hpath⟩, List.getLast?_cons_cons.trans hlast⟩

/-- The name of the innermost function on a path, which may come from the node around it. -/
def functionAround (source : Source) : List Node → Option String
  | [] => none
  | n :: above =>
    if n.kind.isFunction then some (functionName source n above.head?)
    else functionAround source above

/-- Whether there is a loop on a path before its innermost function. -/
def loopAround (ancestors : List Node) : Bool :=
  (ancestors.takeWhile fun n => !n.kind.isFunction).any (·.kind.isLoop)

def Spot.visit (source : Source) (s : Spot) : Visit where
  node := s.node
  parent := s.ancestors.head?
  function := functionAround source s.ancestors
  inLoop := loopAround s.ancestors

/-- The event of a node, if it has one. -/
def Spot.event? (source : Source) (s : Spot) : Option Event := (s.visit source).event? source

section Context

variable {source : Source} {below above ancestors : List Node} {f : Node}

theorem functionAround_split (hb : ∀ n ∈ below, n.kind.isFunction = false)
    (hf : f.kind.isFunction = true) :
    functionAround source (below ++ f :: above) = some (functionName source f above.head?) := by
  induction below with
  | nil => simp [functionAround, hf]
  | cons n below ih =>
    obtain ⟨hn, hrest⟩ := List.forall_mem_cons.mp hb
    simp only [List.cons_append, functionAround, hn, Bool.false_eq_true, if_false]
    exact ih hrest

theorem functionAround_none (h : ∀ n ∈ ancestors, n.kind.isFunction = false) :
    functionAround source ancestors = none := by
  induction ancestors with
  | nil => rfl
  | cons n above ih =>
    obtain ⟨hn, hrest⟩ := List.forall_mem_cons.mp h
    simp only [functionAround, hn, Bool.false_eq_true, if_false]
    exact ih hrest

theorem loopAround_split (hb : ∀ n ∈ below, n.kind.isFunction = false)
    (hf : f.kind.isFunction = true) :
    loopAround (below ++ f :: above) = true ↔ ∃ n ∈ below, n.kind.isLoop = true := by
  have hpath : (below ++ f :: above).takeWhile (fun n => !n.kind.isFunction) = below := by
    rw [List.takeWhile_append_of_pos (by simpa using hb),
      List.takeWhile_cons_of_neg (by simp [hf]), List.append_nil]
  rw [loopAround, hpath, List.any_eq_true]

theorem loopAround_none (h : ∀ n ∈ ancestors, n.kind.isFunction = false) :
    loopAround ancestors = true ↔ ∃ n ∈ ancestors, n.kind.isLoop = true := by
  rw [loopAround, List.takeWhile_eq_self_iff.mpr (by simpa using h), List.any_eq_true]

end Context

section Walk

variable (source : Source)

/-- What the walk carries down to the children of a node is what is around them. -/
theorem Spot.inner_visit (s : Spot) :
    (s.visit source).inner source =
      s.node.children.map fun c => Spot.visit source ⟨c, s.node :: s.ancestors⟩ := by
  have hloop : loopAround (s.node :: s.ancestors) =
      if s.node.kind.isFunction then false else loopAround s.ancestors || s.node.kind.isLoop := by
    unfold loopAround
    cases hf : s.node.kind.isFunction with
    | true => simp [hf]
    | false => simp [hf, Bool.or_comm]
  unfold Visit.inner
  simp only [Spot.visit, List.head?_cons, hloop, functionAround]
  rfl

/-- How far the walk has come: the events found so far, last first, and what is on the stack. -/
structure Progress where
  found : List Event
  stack : List Visit

namespace Progress

def start (root : Node) : Progress where
  found := []
  stack := [{ node := root, parent := none, function := none, inLoop := false }]

/-- One turn of the walk. -/
def turn : Progress → Progress
  | ⟨found, []⟩ => ⟨found, []⟩
  | ⟨found, v :: stack⟩ => ⟨(v.event? source).toList ++ found, v.inner source ++ stack⟩

theorem walkFrom_turn (p : Progress) :
    walkFrom source (p.turn source).found (p.turn source).stack =
      walkFrom source p.found p.stack := by
  obtain ⟨found, stack⟩ := p
  cases stack with
  | nil => rfl
  | cons v stack => rw [walkFrom, turn]

theorem walkFrom_turns (p : Progress) (k : Nat) :
    walkFrom source ((turn source)^[k] p).found ((turn source)^[k] p).stack =
      walkFrom source p.found p.stack := by
  induction k generalizing p with
  | zero => rfl
  | succ k ih => rw [Function.iterate_succ_apply, ih, walkFrom_turn]

mutual

/-- As many turns as a tree has nodes take the tree off the stack, whatever is below it. -/
theorem turns_spots (n : Node) (ancestors : List Node) (found : List Event)
    (stack : List Visit) :
    (turn source)^[n.count] ⟨found, Spot.visit source ⟨n, ancestors⟩ :: stack⟩ =
      ⟨((n.spots ancestors).filterMap (Spot.event? source)).reverse ++ found, stack⟩ := by
  cases n with
  | mk kind named field first past row children =>
    -- After the turn of the node itself its children are on top of the stack.
    rw [Node.count, Function.iterate_succ_apply, turn, Spot.inner_visit,
      turns_spotsAll children, Node.spots, List.filterMap_cons]
    unfold Spot.event?
    generalize (Spot.visit source _).event? source = event
    cases event with
    | none => simp
    | some e => simp

theorem turns_spotsAll (ns ancestors : List Node) (found : List Event) (stack : List Visit) :
    (turn source)^[Node.countAll ns]
        ⟨found, (ns.map fun n => Spot.visit source ⟨n, ancestors⟩) ++ stack⟩ =
      ⟨((Node.spotsAll ancestors ns).filterMap (Spot.event? source)).reverse ++ found, stack⟩ := by
  cases ns with
  | nil => rfl
  | cons n ns =>
    rw [Node.countAll, Nat.add_comm, Function.iterate_add_apply, List.map_cons, List.cons_append,
      turns_spots n, turns_spotsAll ns, Node.spotsAll]
    simp

end

/-- The walk ends after as many turns as the tree has nodes. -/
theorem turns_root (root : Node) :
    (turn source)^[root.count] (start root) =
      ⟨((root.spots []).filterMap (Spot.event? source)).reverse, []⟩ := by
  have h := turns_spots source root [] [] []
  rw [List.append_nil] at h
  exact h

end Progress

theorem walk_eq_spots (root : Node) :
    walk source root = (root.spots []).filterMap (Spot.event? source) := by
  have h := Progress.walkFrom_turns source (Progress.start root) root.count
  rw [Progress.turns_root, walkFrom, List.reverse_reverse] at h
  exact h.symm

end Walk

section Events

variable {source : Source}

/-- An event has the marks of its visit, and stands where the node or its parent starts. -/
structure Visit.Gives (source : Source) (v : Visit) (e : Event) : Prop where
  function : e.function = v.function
  inLoop : e.inLoop = v.inLoop
  place : ∃ anchor, (anchor = v.node ∨ v.parent = some anchor) ∧
    e.line = some (anchor.row + 1) ∧ e.lineText = source.lineText (anchor.row + 1)

theorem Visit.acquisition?_gives {v : Visit} {e : Event} (h : v.acquisition? source = some e) :
    v.Gives source e := by
  simp only [Visit.acquisition?, Option.bind_eq_bind, Option.bind_eq_some_iff] at h
  obtain ⟨value, -, made, -, he⟩ := h
  cases he
  refine ⟨rfl, rfl, _, ?_, rfl, rfl⟩
  cases hp : v.parent.filter (·.kind.isDeclaration) with
  | none => exact .inl rfl
  | some p => exact .inr (Option.filter_eq_some_iff.mp hp).1

theorem Visit.release?_gives {v : Visit} {e : Event} (h : v.release? source = some e) :
    v.Gives source e := by
  simp only [Visit.release?, Option.bind_eq_bind, Option.bind_eq_some_iff] at h
  obtain ⟨left, -, right, -, he⟩ := h
  split at he
  · cases he
    exact ⟨rfl, rfl, v.node, .inl rfl, rfl, rfl⟩
  · cases he

/-- Declarators and assignments alone have events. -/
theorem Visit.event?_gives {v : Visit} {e : Event} (h : v.event? source = some e) :
    (v.node.kind = .declarator ∨ v.node.kind = .assignment) ∧ v.Gives source e := by
  unfold Visit.event? at h
  split at h
  · rename_i hk
    exact ⟨.inl hk, Visit.acquisition?_gives h⟩
  · rename_i hk
    exact ⟨.inr hk, Visit.release?_gives h⟩
  · cases h

end Events

/-- The innermost function among the ancestors of a node gives its event the name, and the loops
before that function give it the mark of a loop; without a function among them there is no name, and
any loop counts. -/
structure Spot.Placed (source : Source) (s : Spot) (e : Event) : Prop where
  within : ∀ below f above, s.ancestors = below ++ f :: above →
    (∀ n ∈ below, n.kind.isFunction = false) → f.kind.isFunction = true →
      e.function = some (functionName source f above.head?) ∧
        (e.inLoop = true ↔ ∃ n ∈ below, n.kind.isLoop = true)
  outside : (∀ n ∈ s.ancestors, n.kind.isFunction = false) →
    e.function = none ∧ (e.inLoop = true ↔ ∃ n ∈ s.ancestors, n.kind.isLoop = true)

theorem Spot.event?_placed {source : Source} {s : Spot} {e : Event}
    (h : s.event? source = some e) : s.Placed source e := by
  obtain ⟨-, hfunction, hloop, -⟩ := Visit.event?_gives h
  refine ⟨?_, ?_⟩
  · intro below f above hsplit hb hf
    rw [hfunction, hloop]
    unfold Spot.visit
    rw [hsplit]
    exact ⟨functionAround_split hb hf, loopAround_split hb hf⟩
  · intro hn
    rw [hfunction, hloop]
    exact ⟨functionAround_none hn, loopAround_none hn⟩

/-- The walk ends after one turn for each node, with nothing left on the stack; its events are those
of the nodes in pre-order; and an event is of a declarator or an assignment, with the name and the
mark that the ancestors of the node give it. -/
theorem walk_preorder (source : Source) (root : Node) :
    (Progress.turn source)^[root.count] (Progress.start root) =
        ⟨(walk source root).reverse, []⟩ ∧
      walk source root = (root.spots []).filterMap (Spot.event? source) ∧
      ∀ s ∈ root.spots [],
        (IsPath (s.node :: s.ancestors) ∧ (s.node :: s.ancestors).getLast? = some root) ∧
          ∀ e, s.event? source = some e →
            (s.node.kind = .declarator ∨ s.node.kind = .assignment) ∧ s.Placed source e := by
  have hwalk := walk_eq_spots source root
  refine ⟨?_, hwalk, ?_⟩
  · rw [Progress.turns_root, hwalk]
  · intro s hs
    refine ⟨Node.spots_path hs, ?_⟩
    intro e he
    exact ⟨(Visit.event?_gives he).1, Spot.event?_placed he⟩

/-- A release in a loop, and in the same loop a function that declares an array. -/
def loopedText : String := "while (a) \x7b x = null; f = () => \x7b let y = []; \x7d \x7d"

/-- A node without children that fills a field. -/
def Node.leaf (kind : Kind) (field : Field) (first past : Int) : Node :=
  ⟨kind, true, some field, first, past, 0, []⟩

namespace Looped

def release : Node :=
  ⟨.assignment, true, none, 12, 20, 0, [.leaf .identifier .left 12 13, .leaf .null .right 16 20]⟩

def declarator : Node :=
  ⟨.declarator, true, none, 38, 44, 0, [.leaf .identifier .name 38 39, .leaf .array .value 42 44]⟩

def arrow : Node := ⟨.arrow, true, some .right, 26, 47, 0, [declarator]⟩

def binding : Node :=
  ⟨.assignment, true, none, 22, 47, 0, [.leaf .identifier .left 22 23, arrow]⟩

def loop : Node := ⟨.whileLoop, true, none, 0, 49, 0, [release, binding]⟩

def released : Spot := ⟨release, [loop]⟩

def declared : Spot := ⟨declarator, [arrow, binding, loop]⟩

end Looped

theorem walk_preorder_looped :
    ∃ x y, walk (.ofText loopedText) Looped.loop = [x, y] ∧
      (x.function = none ∧ x.inLoop = true) ∧ (y.function = some "f" ∧ y.inLoop = false) := by
  obtain ⟨-, hwalk, hspots⟩ := walk_preorder (.ofText loopedText) Looped.loop
  have hx : Looped.released ∈ Looped.loop.spots [] := List.mem_of_getElem? (i := 1) rfl
  have hy : Looped.declared ∈ Looped.loop.spots [] := List.mem_of_getElem? (i := 7) rfl
  obtain ⟨x, hex⟩ : ∃ e, Looped.released.event? (.ofText loopedText) = some e :=
    Option.isSome_iff_exists.mp (by decide +kernel)
  obtain ⟨y, hey⟩ : ∃ e, Looped.declared.event? (.ofText loopedText) = some e :=
    Option.isSome_iff_exists.mp (by decide +kernel)
  refine ⟨x, y, ?_, ?_, ?_⟩
  · have hothers : (Looped.loop.spots []).filterMap (Spot.event? (.ofText loopedText)) =
        (Looped.released.event? (.ofText loopedText)).toList ++
          (Looped.declared.event? (.ofText loopedText)).toList := rfl
    rw [hwalk, hothers, hex, hey]
    rfl
  · obtain ⟨hfunction, hloop⟩ := ((hspots _ hx).2 x hex).2.outside (by decide)
    exact ⟨hfunction, hloop.mpr ⟨Looped.loop, List.mem_cons_self, rfl⟩⟩
  · obtain ⟨hfunction, hloop⟩ := ((hspots _ hy).2 y hey).2.within [] Looped.arrow
      [Looped.binding, Looped.loop] rfl (by simp) rfl
    refine ⟨hfunction.trans (by decide +kernel), ?_⟩
    rw [Bool.eq_false_iff, ne_eq, hloop]
    simp

end HeapAudit.Syntax
