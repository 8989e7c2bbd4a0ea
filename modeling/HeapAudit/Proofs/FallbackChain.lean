import HeapAudit.Extraction

namespace HeapAudit

namespace Frontend

/-- Whether a frontend reads a source, if only to find nothing in it. -/
def reads (source : String) (f : Frontend) : Bool :=
  match f.run source with
  | .found _ => true
  | _ => false

/-- What a frontend finds; one that does not read the source finds nothing. -/
def events (source : String) (f : Frontend) : List Event :=
  match f.run source with
  | .found events => events
  | _ => []

/-- Whether a frontend finds any event. -/
def finds (source : String) (f : Frontend) : Bool := !(f.events source).isEmpty

theorem finds_of_not_reads {source : String} {f : Frontend} (h : f.reads source = false) :
    f.finds source = false := by
  cases hr : f.run source with
  | failed why => simp [finds, events, hr]
  | refused => simp [finds, events, hr]
  | found events => simp [reads, hr] at h

end Frontend

namespace Extraction

/-- The three things that a frontend can do to a chain: not read the source, read it and find
nothing, or end the chain with what it finds. -/
theorem runFrom_cons (source : String) (last : Option String) (f : Frontend)
    (rest : List Frontend) :
    runFrom source last (f :: rest) =
      if f.finds source then ⟨f.events source, f.name⟩
      else runFrom source (if f.reads source then some f.name else last) rest := by
  rw [runFrom]
  cases hr : f.run source with
  | failed why => simp [Frontend.finds, Frontend.reads, Frontend.events, hr]
  | refused => simp [Frontend.finds, Frontend.reads, Frontend.events, hr]
  | found events =>
    cases events with
    | nil => simp [Frontend.finds, Frontend.reads, Frontend.events, hr]
    | cons e events => simp [Frontend.finds, Frontend.events, hr]

/-- The last frontend of a chain that reads the source, or else the one before the chain. -/
def lastReader (source : String) (last : Option String) (chain : List Frontend) : Option String :=
  ((chain.filter (·.reads source)).getLast?.map Frontend.name).or last

theorem lastReader_cons (source : String) (last : Option String) (f : Frontend)
    (rest : List Frontend) :
    lastReader source last (f :: rest) =
      lastReader source (if f.reads source then some f.name else last) rest := by
  unfold lastReader
  cases hr : f.reads source with
  | false => simp [hr]
  | true =>
    rw [List.filter_cons_of_pos hr, List.getLast?_cons]
    cases (rest.filter (·.reads source)).getLast? with
    | none => rfl
    | some g => rfl

/-- What the rest of a chain gives, whatever has been tried before it. -/
theorem runFrom_eq (source : String) (last : Option String) (chain : List Frontend) :
    runFrom source last chain =
      match chain.find? (·.finds source) with
      | some f => ⟨f.events source, f.name⟩
      | none => ⟨[], nameOrNone (lastReader source last chain)⟩ := by
  induction chain generalizing last with
  | nil => simp [runFrom, lastReader]
  | cons f rest ih =>
    rw [runFrom_cons, List.find?_cons, lastReader_cons]
    cases hf : f.finds source with
    | true => rfl
    | false => simpa using ih _

/-- A frontend that does not read the source is as good as absent. -/
theorem runFrom_filter (source : String) (last : Option String) (chain : List Frontend) :
    runFrom source last (chain.filter (·.reads source)) = runFrom source last chain := by
  induction chain generalizing last with
  | nil => rfl
  | cons f rest ih =>
    cases hr : f.reads source with
    | true => rw [List.filter_cons_of_pos hr, runFrom_cons, runFrom_cons, ih]
    | false =>
      have hf := Frontend.finds_of_not_reads hr
      rw [List.filter_cons_of_neg (by simp [hr]), runFrom_cons, ih]
      simp [hf, hr]

/-- Whatever the frontends of a chain do, the first that finds any event decides; if none does, the
last that reads the source is named, unless it has no name; and those that do not read the source
make no difference. -/
theorem run_fallback (chain : List Frontend) (source : String) :
    run chain source =
        (match chain.find? (·.finds source) with
        | some f => ⟨f.events source, f.name⟩
        | none =>
          ⟨[], match (chain.filter (·.reads source)).getLast? with
            | some f => if f.name = "" then "none" else f.name
            | none => "none"⟩) ∧
      run (chain.filter (·.reads source)) source = run chain source := by
  refine ⟨?_, runFrom_filter source none chain⟩
  rw [run, runFrom_eq]
  cases chain.find? (·.finds source) with
  | some f => rfl
  | none =>
    unfold lastReader
    cases (chain.filter (·.reads source)).getLast? with
    | some f => rfl
    | none => rfl

/-- A frontend without a name, which finds nothing in any source. -/
def nameless : Frontend := { name := "", run := fun _ => .found [] }

/-- An empty name counts as no name: the last frontend that read the source is not named. -/
theorem nameless_not_named :
    [nameless].find? (·.finds "") = none ∧
      ([nameless].filter (·.reads "")).getLast? = some nameless ∧
      (run [nameless] "").extractor ≠ nameless.name :=
  ⟨rfl, rfl, by decide⟩

end Extraction

end HeapAudit
