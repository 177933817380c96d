import NestedWords.Command

/-!
# The program

Reads the files that a command names, prints its report and writes the graph. It ends with
0 if all went well, 1 after a failure, 2 if the command line was not understood and 101 if
an assumption of the computation was broken.
-/
namespace NestedWords.Main

/-- The bytes of a file, if it can be read. -/
def contentOf (path : String) : IO (Option ByteArray) := do
  try
    return some (← IO.FS.readBinFile path)
  catch _ =>
    return none

/-- The contents of the files that a command names. -/
def contents (c : Command) : IO (String → Option ByteArray) := do
  let automaton ← contentOf c.automaton
  let settings ← match c.settings with
    | none => pure none
    | some path => contentOf path
  return fun path => if path = c.automaton then automaton else settings

def complain (message : String) (code : UInt32) : IO UInt32 := do
  (← IO.getStderr).putStrLn ("Error: " ++ message)
  return code

/-- Prints a report and writes its graph. -/
def deliver (r : Command.Report) : IO UInt32 := do
  (← IO.getStdout).putStr r.output
  match r.graph with
  | none => return 0
  | some (path, graph) =>
    try
      IO.FS.writeFile path graph
      return 0
    catch _ =>
      complain ("could not write " ++ path) 1

def usage : String :=
  "usage: [--config FILE] [--dot FILE] [--no-dead-ends] [--verbose] AUTOMATON"

/-- More turns than can be taken. -/
def patience : Nat := Nat.pow 2 62

def perform (arguments : List String) : IO UInt32 := do
  match Command.ofArguments arguments with
  | none => complain usage 2
  | some c =>
    match c.run (← contents c) patience with
    | .done r => deliver r
    | .failed f => complain f.message 1
    | .broken f => complain (f.message Text.quoted) 101
    | .unfinished => complain "the computation did not end" 1

end NestedWords.Main

def main (arguments : List String) : IO UInt32 := NestedWords.Main.perform arguments
