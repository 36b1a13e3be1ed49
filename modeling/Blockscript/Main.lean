import Blockscript.CommandLine

/-!
# The command

Reads the program file, carries the command out and writes what it leaves behind.
-/

namespace Blockscript.CommandLine

/-- How the command is used. -/
def usage : String :=
  "usage: blockscript [-h] [-v] [--emit-ast FILE | --generate FILE] [FILE]"

/-- Steps inside one another that a run may take. No machine gets there. -/
def stepBudget : Nat :=
  Nat.pow 2 60

/-- The text of a file, if it can be read. -/
def readText (path : String) : IO (Option String) := do
  try
    return some (← IO.FS.readFile path)
  catch _ =>
    return none

/-- Whether an exit value has room in a machine word. -/
def fitsWord (number : Int) : Bool :=
  -Nat.pow 2 63 ≤ number && number < Nat.pow 2 63

/-- The exit of a command as a status of eight bits. An integer that has no room in a
machine word counts as minus one, a value that is no integer as a failure. -/
def exitStatus : Exit → UInt32
  | .done => 0
  | .value (.integer number) =>
    if fitsWord number then UInt32.ofNat (number % 256).toNat else 255
  | .value _ | .brokenOff _ => 1

/-- What the exit itself leaves on the error output: a run that gives nil says so. -/
def exitErrors : Exit → String
  | .value .nil => "NIL\n"
  | .done | .value _ | .brokenOff _ => ""

/-- Carries out a command line. -/
def runWords (words : List String) : IO UInt32 := do
  match Command.ofWords words with
  | .error .help =>
    IO.println usage
    return 0
  | .error .usage =>
    IO.eprintln usage
    return 2
  | .ok command =>
    let completion := command.carryOut stepBudget (← readText command.path)
    for (name, text) in completion.created do
      IO.FS.writeFile name text
    IO.print completion.output
    IO.eprint (completion.errors ++ exitErrors completion.exit)
    return exitStatus completion.exit

end Blockscript.CommandLine

/-- The command. -/
def main (words : List String) : IO UInt32 :=
  Blockscript.CommandLine.runWords words
