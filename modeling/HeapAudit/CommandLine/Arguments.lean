import HeapAudit.Text.Digit
import HeapAudit.Text.Quoted

namespace HeapAudit.CommandLine
open Text

/-- An option of a command, which `α` names. -/
structure Flag (α : Type) where
  option : α
  /-- The ways to write it. -/
  spellings : List String
  takesValue : Bool := true

def Flag.label {α : Type} (f : Flag α) : String := "/".intercalate f.spellings

/-- What a command takes at its one position. -/
inductive Position where
  /-- One argument. -/
  | single
  /-- Everything from the first argument on. -/
  | rest
  deriving DecidableEq, Repr

inductive ArgumentError where
  | ambiguous (given : String) (candidates : List String)
  | noValue (label : String)
  | ignoredValue (label value : String)
  | refused (label why : String)
  deriving DecidableEq, Repr

def ArgumentError.message : ArgumentError → String
  | .ambiguous given candidates =>
    "ambiguous option: " ++ given ++ " could match " ++ ", ".intercalate candidates
  | .noValue label => "argument " ++ label ++ ": expected one argument"
  | .ignoredValue label value =>
    "argument " ++ label ++ ": ignored explicit argument " ++ quote value
  | .refused label why => "argument " ++ label ++ ": " ++ why

/-- The sign between an option and a value in the same argument. -/
inductive Joint where
  | equals
  | direct
  deriving DecidableEq, Repr

/-- An argument that looks like an option. -/
structure Reading (α : Type) where
  /-- None if there is no such option. -/
  flag : Option (Flag α)
  spelling : String
  value : Option (Joint × String) := none

inductive Mark (α : Type) where
  | plain
  /-- The first double dash. -/
  | dashes
  | option (r : Reading α)

/-- All spellings with their options, in the order of declaration. -/
def spellings {α : Type} (flags : List (Flag α)) : List (String × Flag α) :=
  flags.flatMap fun f => f.spellings.map (·, f)

def lookup? {α : Type} (flags : List (Flag α)) (spelling : String) : Option (Flag α) :=
  ((spellings flags).find? (·.1 = spelling)).map (·.2)

/-- The parts around the first equals sign. -/
def cut (arg : String) : String × Option String :=
  let cs := arg.toList
  let head := cs.takeWhile (· ≠ '=')
  match cs.drop head.length with
  | [] => (arg, none)
  | _ :: tail => (String.ofList head, some (String.ofList tail))

/-- The options that an argument may stand for. -/
def candidates {α : Type} (flags : List (Flag α)) (arg : String) : List (Reading α) :=
  if "--".toList.isPrefixOf arg.toList then
    let (head, value) := cut arg
    (spellings flags).filterMap fun (spelling, f) =>
      if head.toList.isPrefixOf spelling.toList then
        some ⟨some f, spelling, value.map (.equals, ·)⟩
      else none
  else
    let short := String.ofList (arg.toList.take 2)
    let tail := String.ofList (arg.toList.drop 2)
    (spellings flags).filterMap fun (spelling, f) =>
      if spelling = short then some ⟨some f, spelling, some (.direct, tail)⟩
      else if arg.toList.isPrefixOf spelling.toList then some ⟨some f, spelling, none⟩
      else none

/-- A minus and a number is not an option. -/
def isNegativeNumber (arg : Chars) : Bool :=
  match arg with
  | '-' :: cs =>
    let cs := if cs.getLast? = some '\n' then cs.dropLast else cs
    let whole := cs.takeWhile isDigit
    match cs.drop whole.length with
    | [] => !whole.isEmpty
    | '.' :: fraction => !fraction.isEmpty && fraction.all isDigit
    | _ => false
  | _ => false

def mark {α : Type} (flags : List (Flag α)) (arg : String) : Except ArgumentError (Mark α) :=
  let cs := arg.toList
  if cs.head? ≠ some '-' then .ok .plain
  else match lookup? flags arg with
    | some f => .ok (.option ⟨some f, arg, none⟩)
    | none =>
      if arg = "-" then .ok .plain
      else
        let (head, value) := cut arg
        match value, lookup? flags head with
        | some v, some f => .ok (.option ⟨some f, head, some (.equals, v)⟩)
        | _, _ =>
          match candidates flags arg with
          | [r] => .ok (.option r)
          | [] =>
            if isNegativeNumber cs || cs.contains ' ' then .ok .plain
            else .ok (.option ⟨none, arg, none⟩)
          | rs => .error (.ambiguous arg (rs.map Reading.spelling))

/-- Arguments with their marks. -/
def marks {α : Type} (flags : List (Flag α)) :
    List String → Except ArgumentError (List (String × Mark α))
  | [] => .ok []
  | arg :: rest =>
    if arg = "--" then .ok ((arg, .dashes) :: rest.map (·, .plain))
    else do
      let m ← mark flags arg
      return (arg, m) :: (← marks flags rest)

/-- What is collected from arguments: settings of a type `σ`, what stands at the position, and what
is left over. -/
structure Collected (σ : Type) where
  settings : σ
  position : Option (List String) := none
  left : List String := []

def Collected.leave {σ : Type} (c : Collected σ) (args : List String) : Collected σ :=
  { c with left := c.left ++ args }

/-- A command: its options, and what each does to the settings. -/
structure Command (α σ : Type) where
  flags : List (Flag α)
  position : Position
  /-- Gives a reason if the value is not for this option. -/
  assign : α → Option String → σ → Except String σ
  /-- Settings with which no further argument is looked at. -/
  final : σ → Bool

namespace Command

variable {α σ : Type}

def set (k : Command α σ) (c : Collected σ) (f : Flag α) (value : Option String) :
    Except ArgumentError (Collected σ) :=
  if k.final c.settings then .ok c
  else match k.assign f.option value c.settings with
    | .ok settings => .ok { c with settings }
    | .error why => .error (.refused f.label why)

/-- How a bundle of short options ends. -/
inductive Bundle (α σ : Type) where
  | done (c : Collected σ)
  /-- The last option takes the next argument. -/
  | needs (c : Collected σ) (f : Flag α)

/-- Takes the options in one argument, of which the text after the first one is given. -/
def bundle (k : Command α σ) (c : Collected σ) (f : Flag α) (spelling : String) (joint : Joint) :
    Chars → Except ArgumentError (Bundle α σ)
  | [] =>
    if f.takesValue then (k.set c f (some "")).map .done
    else .error (.ignoredValue f.label "")
  | t :: tail =>
    if f.takesValue then (k.set c f (some (String.ofList (t :: tail)))).map .done
    else if "--".toList.isPrefixOf spelling.toList || joint = .equals || t = '-' then
      .error (.ignoredValue f.label (String.ofList (t :: tail)))
    else do
      let c ← k.set c f none
      let next := String.ofList ['-', t]
      match lookup? k.flags next with
      | none => return .done (c.leave [String.ofList ('-' :: t :: tail)])
      | some g =>
        match tail with
        | [] => if g.takesValue then return .needs c g else (k.set c g none).map .done
        | '=' :: value => bundle k c g next .equals value
        | u :: rest => bundle k c g next .direct (u :: rest)

/-- Takes one argument that looks like an option. -/
def takeOption (k : Command α σ) (c : Collected σ) (r : Reading α) :
    Except ArgumentError (Bundle α σ) :=
  match r.flag with
  | none => .ok (.done (c.leave [r.spelling]))
  | some f =>
    match r.value with
    | some (joint, value) => k.bundle c f r.spelling joint value.toList
    | none => if f.takesValue then .ok (.needs c f) else (k.set c f none).map .done

/-- How many arguments the position takes from here on, the double dash included. -/
def positionCount (position : Position) : List (String × Mark α) → Nat
  | (_, .dashes) :: (_, .plain) :: rest => match position with
    | .single => 2
    | .rest => rest.length + 2
  | (_, .plain) :: (_, .dashes) :: rest => match position with
    | .single => 2
    | .rest => rest.length + 2
  | (_, .plain) :: rest => match position with
    | .single => 1
    | .rest => rest.length + 1
  | _ => 0

/-- A single argument does not keep the double dash. -/
def positionArguments (position : Position) (args : List String) : List String :=
  match position with
  | .single => args.erase "--"
  | .rest => args

/-- Goes through marked arguments; `skip` of them are taken already. -/
def collectFrom (k : Command α σ) (c : Collected σ) (skip : Nat) :
    List (String × Mark α) → Except ArgumentError (Collected σ)
  | [] => .ok c
  | (arg, m) :: rest =>
    if k.final c.settings then .ok c
    else match skip with
    | n + 1 => collectFrom k c n rest
    | 0 =>
      match m with
      | .option r => do
        match ← k.takeOption c r with
        | .done c => collectFrom k c 0 rest
        | .needs c f =>
          match rest.head? with
          | some (value, .plain) => collectFrom k (← k.set c f (some value)) 1 rest
          | _ => .error (.noValue f.label)
      | _ =>
        let n := positionCount k.position ((arg, m) :: rest)
        if c.position.isNone && n != 0 then
          let taken := positionArguments k.position (arg :: (rest.take (n - 1)).map (·.1))
          collectFrom k { c with position := some taken } (n - 1) rest
        else collectFrom k (c.leave [arg]) 0 rest

/-- Options may be shortened as long as they stay unique, carry their value after an equals sign or
directly, and be bundled behind one dash; after a double dash nothing is an option. What no option
or position takes is left over. Settings may break the collection off, as a call for help does. -/
def collect (k : Command α σ) (settings : σ) (args : List String) :
    Except ArgumentError (Collected σ) := do
  k.collectFrom { settings } 0 (← marks k.flags args)

end Command

end HeapAudit.CommandLine
