import Blockscript.CommandLine.Options
import Blockscript.Grammar.Program
import Blockscript.Java
import Blockscript.Running.Program
import Blockscript.Text.Newline
import Blockscript.Typing.Program

/-!
# Carrying out a command

A command reads one program file and ends with an exit, two output texts and
perhaps a new file. All of this is a function of the command and the text of the
file; reading and writing are left to the caller.

Every error of the program is one line on the error output and exit one. A run
ends with the value of `main` as its exit, unless it is broken off. A trace is
asked for by its detail and goes to a file, which is there as soon as the run
starts.
-/

namespace Blockscript

/-- Why a program text gives no result. -/
inductive Failure where
  | reading (fault : ReadFault)
  | checking (fault : TypeFault)
  | running (stop : Stop)
  | emitting (fault : Java.Fault)
deriving DecidableEq, Inhabited

/-- The report of a failure. A used-up budget, a numeral without a number and a
program that cannot be written are no failures of a stage. -/
def Failure.report : Failure → Report
  | reading (.ungrammatical error) => ⟨.reading, error.message, some error.offset⟩
  | reading (.numeral fault) => ⟨.use, fault.message, none⟩
  | checking fault => fault.report
  | running (.fault fault) => fault.report
  | running .exhausted => ⟨.use, "the budget of steps is used up", none⟩
  | emitting fault => ⟨.use, fault.message, none⟩

/-- Whether a failure is an error of the program. All others break a command off:
they are limits of the tools. -/
def Failure.isError : Failure → Bool
  | reading (.numeral _) | checking .unwritable | emitting _ => false
  | running stop => stop.isError
  | reading (.ungrammatical _) | checking _ => true

/-- The checked program that a text is. -/
def checkedProgram (source : String) : Except Failure (Program .checked) :=
  match parseProgram source with
  | .error fault => .error (.reading fault)
  | .ok program =>
    match Typing.check program with
    | .error fault => .error (.checking fault)
    | .ok (checked, _) => .ok checked

/-- What running a program text prints, and what it gives. -/
def interpret (budget : Nat) (source : String) : String × Except Failure Value :=
  match checkedProgram source with
  | .error failure => ("", .error failure)
  | .ok program =>
    match Running.run budget 0 program with
    | (.ok value, machine) => (machine.output, .ok value)
    | (.error stop, machine) => (machine.output, .error (.running stop))

namespace CommandLine

/-- The parts of a path without those that mean nothing. -/
def pathParts (path : String) : List String :=
  (path.splitOn "/").filter fun part => part ≠ "" && part ≠ "."

/-- The leading slashes of a path: one, or exactly two, which differ from one. -/
def pathRoot (path : String) : String :=
  match path.toList.takeWhile (· = '/') with
  | [] => ""
  | ['/', '/'] => "//"
  | _ => "/"

/-- The short form of a path: no empty parts, and none that stays in place. -/
def normalPath (path : String) : String :=
  let short := pathRoot path ++ "/".intercalate (pathParts path)
  if short = "" then "." else short

/-- How a command ends. -/
inductive Exit where
  /-- The command has done its work. -/
  | done
  /-- The exit status is this value. -/
  | value (value : Value)
  /-- The command was broken off by something that is no error of the program. -/
  | brokenOff (failure : Failure)
deriving DecidableEq, Inhabited

/-- The exit of a failed command. -/
def Exit.failed : Exit :=
  .value (.integer 1)

/-- Everything that a command leaves behind. -/
structure Completion where
  exit : Exit
  output : String := ""
  errors : String := ""
  created : List (String × String) := []
deriving Inhabited

/-- The exit of a command that has failed in this way. -/
def Exit.ofFailure (failure : Failure) : Exit :=
  if failure.isError then .failed else .brokenOff failure

/-- The end of a command that has failed. -/
def failedWith (failure : Failure) : Completion :=
  { exit := .ofFailure failure, errors := failure.report.line ++ "\n" }

/-- The end of a command whose file does not exist. -/
def missingFile (path : String) : Completion :=
  { exit := .failed, errors := "Error: file " ++ path ++ " not found\n" }

/-- The name of the file that a trace goes to. -/
def traceFile : String := "debug.txt"

/-- The name of the file that the tree of a program goes to. -/
def treeFile (path : String) : String :=
  path ++ ".ast.json"

/-- Writes the tree of a program. -/
def emitTree (path : String) (program : Program .checked) : Completion :=
  { exit := .done, output := treeFile path ++ "\n",
    created := [(treeFile path, program.toJson.text)] }

/-- Prints a program as Java. -/
def emitJava (program : Program .checked) : Completion :=
  match Java.program program with
  | .ok text => { exit := .done, output := text ++ "\n" }
  | .error fault => failedWith (.emitting fault)

/-- The end of a run that gives a value, or has stopped before. -/
def exitOf : Except Stop Value → Exit
  | .ok value => .value value
  | .error stop => .ofFailure (.running stop)

/-- The line that a run leaves on the error output. -/
def errorsOf : Except Stop Value → String
  | .ok _ => ""
  | .error stop => (Failure.running stop).report.line ++ "\n"

/-- Runs a program. -/
def runProgram (budget detail : Nat) (program : Program .checked) : Completion :=
  let (result, machine) := Running.run budget detail program
  { exit := exitOf result
    output := machine.output
    errors := errorsOf result
    created := if detail = 0 then [] else [(traceFile, machine.traceText)] }

/-- The file that a command reads, in short form. -/
def Command.path : Command → String
  | emitTree path | emitJava path | run _ path => normalPath path

/-- Carries out a command with the text of its file, if there is such a file. -/
def Command.carryOut (budget : Nat) (command : Command) (text : Option String) : Completion :=
  match text with
  | none => missingFile command.path
  | some text =>
    match checkedProgram (String.ofList (Text.unifyNewlines text.toList)) with
    | .error failure => failedWith failure
    | .ok program =>
      match command with
      | .emitTree path => CommandLine.emitTree (normalPath path) program
      | .emitJava _ => CommandLine.emitJava program
      | .run detail _ => runProgram budget detail program

end CommandLine

end Blockscript
