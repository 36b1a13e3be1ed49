import Blockscript.Text.Escape
import Blockscript.Typing.Signature

/-!
# Java source text

A checked program is written as one Java class. The text is laid out by depth:
every block stands four spaces deeper than the line that opens it, and every body
of a case four spaces deeper than its label. Expressions keep their structure as
they were grouped by hand; a power becomes a call, since Java has no operator for
it.

The types that were found by checking are written, and nothing is checked again.
Only a case outside of a switch and an integer with too many digits cannot be
written.
-/

namespace Blockscript.Java

/-- The Java type of a type. -/
def typeName : Ty → String
  | .any => "Object"
  | .nil => "Void"
  | .comparable => "Comparable"
  | .boolean => "boolean"
  | .integer => "int"
  | .decimal => "double"
  | .character => "char"
  | .string => "String"
  | .list element => typeName element ++ "[]"

/-- A text between two quotes of a kind. -/
def quoted (quote : Char) (text : String) : String :=
  String.ofList (quote :: (Text.encode quote text.toList ++ [quote]))

/-- Why a program cannot be written. -/
inductive Fault where
  | strayCase
  /-- An integer has too many digits to be written. -/
  | unwritable
deriving DecidableEq, Inhabited

/-- The wording of a fault. -/
def Fault.message : Fault → String
  | strayCase => "cannot generate Case"
  | unwritable => digitLimitText

/-- An integer. -/
def integer (number : Int) : Except Fault String :=
  match integerText? number with
  | some text => .ok text
  | none => .error .unwritable

/-- A literal. -/
def literal : Literal → Except Fault String
  | .nil => .ok "null"
  | .boolean truth => .ok (if truth then "true" else "false")
  | .integer number => integer number
  | .decimal number => .ok number.text
  | .character text => .ok (quoted '\'' text)
  | .string text => .ok (quoted '"' text)

/-- The Java name of a function of a name and arity. -/
def functionName (name : String) (arity : Nat) : String :=
  if name = "print" && arity = 1 then "System.out.println" else name

mutual

/-- An expression. -/
def expression {ν : Notes} : Expr ν → Except Fault String
  | .literal _ value => literal value
  | .group _ inner => do
    return "(" ++ (← expression inner) ++ ")"
  | .binary _ operator left right => do
    let leftText ← expression left
    let rightText ← expression right
    if operator = "^" then
      return "Math.pow(" ++ leftText ++ ", " ++ rightText ++ ")"
    else
      return leftText ++ " " ++ operator ++ " " ++ rightText
  | .access _ _ name => .ok name
  | .element _ _ name offset => do
    return name ++ "[" ++ (← expression offset) ++ "]"
  | .call _ _ name arguments => do
    return functionName name arguments.length ++ "(" ++ (← expressions arguments) ++ ")"
  | .list _ elements => do
    return "\x7b" ++ (← expressions elements) ++ "\x7d"

/-- Expressions with commas between them. -/
def expressions {ν : Notes} : List (Expr ν) → Except Fault String
  | [] => .ok ""
  | first :: rest => do
    let firstText ← expression first
    let restText ← furtherExpressions rest
    return firstText ++ restText

/-- Expressions with a comma before each. -/
def furtherExpressions {ν : Notes} : List (Expr ν) → Except Fault String
  | [] => .ok ""
  | first :: rest => do
    let firstText ← expression first
    let restText ← furtherExpressions rest
    return ", " ++ firstText ++ restText

end

/-- A value behind an equals sign, or nothing. -/
def initialValue {ν : Notes} (value : Option (Expr ν)) : Except Fault String :=
  match value with
  | some value => do
    return " = " ++ (← expression value)
  | none => .ok ""

/-- The label of a case. -/
def caseLabel {ν : Notes} (value : Option (Expr ν)) : Except Fault String :=
  match value with
  | some value => do
    return "case " ++ (← expression value) ++ ":"
  | none => .ok "default:"

/-- The start of a line at a depth. -/
def newLine (depth : Nat) : String :=
  String.ofList ('\n' :: List.replicate (4 * depth) ' ')

mutual

/-- A statement that starts on a line of the given depth. -/
def statement (depth : Nat) : Stmt .checked → Except Fault String
  | .expression inner => do
    return (← expression inner) ++ ";"
  | .declaration entry name _ value => do
    return typeName entry.type ++ " " ++ name ++ (← initialValue value) ++ ";"
  | .assignment receiver value => do
    let receiverText ← expression receiver
    let valueText ← expression value
    return receiverText ++ " = " ++ valueText ++ ";"
  | .conditional condition thenBlock elseBlock => do
    let conditionText ← expression condition
    let thenText ← block depth thenBlock
    let elseText ← block depth elseBlock
    return "if (" ++ conditionText ++ ") " ++ thenText ++
      if elseBlock.isEmpty then "" else " else " ++ elseText
  | .switch subject cases => do
    let subjectText ← expression subject
    let casesText ← switchCases (depth + 1) cases
    return "switch (" ++ subjectText ++ ") \x7b" ++ casesText ++ newLine depth ++ "\x7d"
  | .loop condition body => do
    let conditionText ← expression condition
    let bodyText ← block depth body
    return "while (" ++ conditionText ++ ") " ++ bodyText
  | .returning value => do
    return "return " ++ (← expression value) ++ ";"
  | .stray _ _ => .error .strayCase

/-- Statements each on a line of its own. -/
def statements (depth : Nat) : List (Stmt .checked) → Except Fault String
  | [] => .ok ""
  | first :: rest => do
    let firstText ← statement depth first
    let restText ← statements depth rest
    return newLine depth ++ firstText ++ restText

/-- A block in braces that is opened on a line of the given depth. An empty one
is closed on the same line. -/
def block (depth : Nat) : List (Stmt .checked) → Except Fault String
  | [] => .ok "\x7b\x7d"
  | first :: rest => do
    let firstText ← statement (depth + 1) first
    let restText ← statements (depth + 1) rest
    return "\x7b" ++ newLine (depth + 1) ++ firstText ++ restText ++ newLine depth ++ "\x7d"

/-- The cases of a switch, each label on a line of its own. Every body ends with
a break. -/
def switchCases (depth : Nat) : List (Case .checked) → Except Fault String
  | [] => .ok ""
  | .mk label body :: rest => do
    let labelText ← caseLabel label
    let bodyText ← statements (depth + 1) body
    let restText ← switchCases depth rest
    return newLine depth ++ labelText ++ bodyText ++ newLine (depth + 1) ++ "break;" ++ restText

end

/-- A global as a field. -/
def field (definition : GlobalDef .checked) : Except Fault String := do
  return (if definition.mutable then "" else "final ") ++ typeName definition.entry.type ++ " " ++
    definition.name ++ (← initialValue definition.value) ++ ";"

/-- Parameters with their types. -/
def parameters (signature : Signature) (names : List String) : String :=
  ", ".intercalate
    (List.zipWith (fun type name => typeName type ++ " " ++ name) signature.parameters names)

/-- A function as a method. -/
def method (definition : FunctionDef .checked) : Except Fault String := do
  let body ← block 1 definition.body
  return typeName definition.routine.result ++ " " ++ definition.name ++ "(" ++
    parameters definition.routine definition.parameters ++ ") " ++ body

/-- Methods with an empty line before each. -/
def methods : List (FunctionDef .checked) → Except Fault String
  | [] => .ok ""
  | first :: rest => do
    let firstText ← method first
    let restText ← methods rest
    return newLine 0 ++ newLine 1 ++ firstText ++ restText

/-- Fields, each on a line of its own. -/
def fields : List (GlobalDef .checked) → Except Fault String
  | [] => .ok ""
  | first :: rest => do
    let firstText ← field first
    let restText ← fields rest
    return newLine 1 ++ firstText ++ restText

/-- The method that starts the program. -/
def entryPoint : String :=
  newLine 0 ++ newLine 1 ++ "public static void main(String[] args) \x7b" ++
    newLine 2 ++ "System.exit(new Main().main());" ++ newLine 1 ++ "\x7d"

/-- The Java class of a program. -/
def program (checked : Program .checked) : Except Fault String := do
  let fieldsText ← fields checked.globals
  let methodsText ← methods checked.functions
  let emptyLine := if checked.globals.isEmpty then "" else newLine 0
  return "public class Main \x7b" ++ emptyLine ++ fieldsText ++ entryPoint ++ methodsText ++
    newLine 0 ++ newLine 0 ++ "\x7d"

end Blockscript.Java
