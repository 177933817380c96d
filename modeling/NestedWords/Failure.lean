import NestedWords.Json.Document
import NestedWords.Toml.Settings

/-!
# Failures

What can keep a computation from a result: it was told to stop, or what it needs could not
be read.
-/
namespace NestedWords

/-- What a caller is told instead of a result, after `ReachError`. -/
inductive Failure
  /-- The monitor asked to stop after this many states had been explored. -/
  | cancelled (explored : Nat)
  /-- There is no text to be had at this path. -/
  | unreadable (path : String)
  | configuration (p : Toml.Problem)
  | description (p : Json.Problem)

namespace Failure

def isCancelled : Failure → Bool
  | cancelled _ => true
  | _ => false

def message : Failure → String
  | cancelled explored =>
    "reachability computation cancelled after " ++ toString explored ++ " explored states"
  | unreadable path => "could not read " ++ path
  | configuration p => "invalid configuration: " ++ p.message
  | description p => "invalid automaton description: " ++ p.message

end Failure

/-! ## Reading files -/

/-- A path and the bytes found there, if there is a file. -/
structure File where
  path : String
  content : Option ByteArray

/-- The text of a file, which must be valid UTF-8. -/
def File.text (f : File) : Except Failure String :=
  match f.content.bind String.fromUTF8? with
  | none => .error (.unreadable f.path)
  | some s => .ok s

/-- After `from_toml_str`: the settings that a text describes. -/
def Settings.ofText (s : String) : Except Failure Settings :=
  match Toml.readSettings s with
  | .error p => .error (.configuration p)
  | .ok settings => .ok settings

def Settings.ofFile (f : File) : Except Failure Settings := do Settings.ofText (← f.text)

variable {S L : Type} [Ord S] [Std.TransOrd S] [DecidableEq S] [Json.Written S]
variable [Ord L] [Std.TransOrd L] [DecidableEq L] [Json.Written L]

/-- After `from_json_str`: the automaton that a text describes. -/
def Automaton.ofText (s : String) : Except Failure (Automaton S L) :=
  match (Json.readDescription s : Except Json.Problem (Description S L)) with
  | .error p => .error (.description p)
  | .ok d => .ok d.toAutomaton

def Automaton.ofFile (f : File) : Except Failure (Automaton S L) := do
  Automaton.ofText (← f.text)

end NestedWords
