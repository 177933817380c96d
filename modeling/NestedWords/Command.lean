import NestedWords.Failure
import NestedWords.Render.Dot
import NestedWords.Render.Table

/-!
# The command

`Command.ofArguments` reads the arguments of a command line, `Command.run` does what they
ask for. What a run prints and writes is its `Report`; nothing here touches a file.
-/
namespace NestedWords

/-- What a command line asks for, after `Cli`. -/
structure Command where
  /-- The path of the automaton. -/
  automaton : String
  /-- The path of the settings, if they are not the default ones. -/
  settings : Option String := none
  /-- Where to write the graph. -/
  dot : Option String := none
  noDeadEnds : Bool := false
  /-- List every state with its stack tops. -/
  verbose : Bool := false
  deriving DecidableEq, Repr

namespace Command

/-! ## Arguments -/

/-- The options that take a value. -/
inductive ValueOption
  | config
  | dot
  deriving DecidableEq, Repr

/-- The options that stand for themselves. -/
inductive Flag
  | noDeadEnds
  | verbose
  deriving DecidableEq, Repr

/-- An argument that has been understood. -/
inductive Item
  | flag (f : Flag)
  | option (o : ValueOption) (value : String)
  | automaton (path : String)
  deriving DecidableEq, Repr

/-- What the name of an option stands for. -/
inductive OptionKind
  | flag (f : Flag)
  | value (o : ValueOption)

def longOption : String → Option OptionKind
  | "config" => some (.value .config)
  | "dot" => some (.value .dot)
  | "no-dead-ends" => some (.flag .noDeadEnds)
  | "verbose" => some (.flag .verbose)
  | _ => none

def shortOption : Char → Option OptionKind
  | 'c' => some (.value .config)
  | 'v' => some (.flag .verbose)
  | _ => none

/-- The items of an argument and the option that still lacks a value, which is then the
next argument. -/
abbrev Understood := List Item × Option ValueOption

/-- An option that is spelled out; an equals sign may join its value to it. -/
def long (cs : List Char) : Option Understood := do
  let name := cs.takeWhile (· != '=')
  match ← longOption (String.ofList name), cs.drop name.length with
  | .flag f, [] => some ([.flag f], none)
  | .flag _, _ => none
  | .value o, [] => some ([], some o)
  | .value o, _ :: value => some ([.option o (String.ofList value)], none)

/-- Options of one letter behind a single dash. The rest of the argument is the value of
the first that takes one; an equals sign in front of it is dropped. -/
def short : List Char → Option Understood
  | [] => some ([], none)
  | c :: cs => do
    match ← shortOption c, cs with
    | .flag f, _ =>
      let (items, pending) ← short cs
      some (.flag f :: items, pending)
    | .value o, [] => some ([], some o)
    | .value o, '=' :: value => some ([.option o (String.ofList value)], none)
    | .value o, value => some ([.option o (String.ofList value)], none)

/-- An argument on its own. A dash alone is a path. -/
def single (argument : String) : Option Understood :=
  match argument.toList with
  | '-' :: '-' :: cs => long cs
  | ['-'] => some ([.automaton argument], none)
  | '-' :: cs => short cs
  | _ => some ([.automaton argument], none)

/-- An argument that can be the value of an option. -/
def isValue (argument : String) : Bool := argument == "-" || argument.toList.head? != some '-'

/-- The items of a command line. Behind two dashes there are only paths. -/
def items : Option ValueOption → List String → Option (List Item)
  | none, [] => some []
  | some _, [] => none
  | none, "--" :: paths => some (paths.map .automaton)
  | none, argument :: rest => do
    let (understood, pending) ← single argument
    return understood ++ (← items pending rest)
  | some o, argument :: rest =>
    if isValue argument then (items none rest).map (.option o argument :: ·) else none

/-- Two items that may not stand together. -/
def clash : Item → Item → Bool
  | .flag f, .flag g => f == g
  | .option o _, .option o' _ => o == o'
  | .automaton _, .automaton _ => true
  | _, _ => false

/-- A value or a path that is empty. -/
def Item.isBlank : Item → Bool
  | .flag _ => false
  | .option _ value => value.isEmpty
  | .automaton path => path.isEmpty

/-- The value given to an option. -/
def valueOf (o : ValueOption) (given : List Item) : Option String :=
  given.findSome? fun
    | .option o' value => if o = o' then some value else none
    | _ => none

/-- Reads a command line, which has a path to an automaton and nothing twice. -/
def ofArguments (arguments : List String) : Option Command := do
  let given ← items none arguments
  if given.any Item.isBlank then none
  if !given.Pairwise (fun a b => clash a b = false) then none
  let automaton ← given.findSome? fun
    | .automaton path => some path
    | _ => none
  return {
    automaton
    settings := valueOf .config given
    dot := valueOf .dot given
    noDeadEnds := given.contains (.flag .noDeadEnds)
    verbose := given.contains (.flag .verbose) }

/-! ## Running -/

/-- What a run leaves behind. -/
structure Report where
  output : String
  /-- The path and the text of the graph, if one was asked for. -/
  graph : Option (String × String)
  deriving DecidableEq, Repr

def report (c : Command) (r : Reachable String String) : Report where
  output :=
    (Render.sizeTable r).render ++ "\n"
      ++ (if c.verbose then "\n" ++ (Render.downStateTable r id).render ++ "\n" else "")
      ++ (if r.isLanguageEmpty then "The language is empty\n" else "The language is not empty\n")
  graph := c.dot.map fun path => (path, Render.dot r id id)

/-- The settings of a command, which the command line has the last word on. -/
def settingsOf (c : Command) (read : String → Option ByteArray) : Except Failure Settings := do
  let s ← match c.settings with
    | none => pure {}
    | some path => Settings.ofFile ⟨path, read path⟩
  return if c.noDeadEnds then s.withoutDeadEnds else s

/-- How a run ends. -/
inductive Ending
  | done (r : Report)
  | failed (f : Failure)
  | broken (f : Fault String)
  | unfinished

/-- Computes the reachable part of an automaton. -/
def compute (c : Command) (settings : Settings) (m : Automaton String String) (fuel : Nat) :
    Ending :=
  match Computation.run m.operand settings .unbounded fuel with
  | .error fault => .broken fault
  | .ok none => .unfinished
  | .ok (some ⟨.reached r, _⟩) => .done (c.report r)
  | .ok (some ⟨.cancelled n, _⟩) => .failed (.cancelled n)

/-- After `main`: does what a command asks for; `read` gives the bytes of a file. The settings are
read before the automaton. -/
def run (c : Command) (read : String → Option ByteArray) (fuel : Nat) : Ending :=
  let inputs : Except Failure (Settings × Automaton String String) := do
    let settings ← c.settingsOf read
    return (settings, ← Automaton.ofFile ⟨c.automaton, read c.automaton⟩)
  match inputs with
  | .error f => .failed f
  | .ok (settings, m) => c.compute settings m fuel

end Command

end NestedWords
