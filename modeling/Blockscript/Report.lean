/-!
# Reports of failure

Every failure of the tools is reported as a kind, a message and, for an error in
the written program, the offset it points at. A report is written on one line.
-/

namespace Blockscript

/-- The stages at which something can fail. A failure of no particular stage is
a misuse of the tools themselves. -/
inductive Stage where
  | use
  | reading
  | checking
  | running
deriving DecidableEq, Inhabited

/-- The kind of error that a stage reports. -/
def Stage.kind : Stage → String
  | use => "Error"
  | reading => "SyntaxError"
  | checking => "TypeError"
  | running => "RuntimeError"

/-- A failure as it is shown to the user. -/
structure Report where
  stage : Stage
  message : String
  offset : Option Nat := none
deriving DecidableEq, Inhabited

/-- The line that shows a report. -/
def Report.line (report : Report) : String :=
  let place :=
    match report.offset with
    | some offset => " (at offset " ++ toString offset ++ ")"
    | none => ""
  report.stage.kind ++ ": " ++ report.message ++ place

end Blockscript
