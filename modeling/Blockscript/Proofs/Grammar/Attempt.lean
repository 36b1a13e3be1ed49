import Blockscript.Grammar.Program

/-!
# Reading without a promise

The rules once more as plain programs. An attempt looks at the tokens that are left, takes
one away or refuses it, and calls other rules; nothing says that a rule leaves fewer tokens
than it was given, so nothing says that its calls come to an end. What a loop of the grammar
does next is a call like any other. Every call takes one from a budget, and an attempt that
runs out of budget has no outcome at all.
-/

namespace Blockscript.Grammar

/-- A program that reads tokens. It has an outcome or is broken off. -/
abbrev Attempt (α : Type) : Type :=
  StateT (List Token) (ExceptT Mismatch Option) α

namespace Attempt

variable {α : Type}

/-- The attempt that is broken off. -/
def brokenOff : Attempt α :=
  fun _ => none

/-- Fails at the next token. -/
def refused (expected : Expected) : Attempt α :=
  fun tokens => some (.error ⟨.expected expected, tokens⟩)

/-- Stops at the next token, which gives no number. -/
def spoiled (fault : NumeralFault) : Attempt α :=
  fun tokens => some (.error ⟨.numeral fault, tokens⟩)

/-- Looks at the next token. -/
def next? : Attempt (Option Token) :=
  fun tokens => some (.ok (tokens.head?, tokens))

/-- Takes the next token away. -/
def skip : Attempt Unit :=
  fun tokens => some (.ok ((), tokens.tail))

/-- Whether the next token has the given text. -/
def sees (text : String) : Attempt Bool :=
  fun tokens => some (.ok (startsWith text tokens, tokens))

/-- Takes the next token away if it has the given text. -/
def accepts (text : String) : Attempt Bool := do
  if ← sees text then
    skip
    return true
  else
    return false

/-- Takes a token with the given text away, which is asked for by its own name. -/
def expectAs (expected : Expected) (text : String) : Attempt Unit := do
  if ← accepts text then return () else refused expected

/-- Takes a token with the given text away. -/
def expect (text : String) : Attempt Unit :=
  expectAs (.word text) text

/-- Takes an identifier away. -/
def takeName (expected : Expected) : Attempt String := do
  match ← next? with
  | some token =>
    if token.kind = .identifier then
      skip
      return token.text
    else
      refused expected
  | none => refused expected

/-- A part that is there if its word is. -/
def optional (text : String) (part : Attempt α) : Attempt (Option α) := do
  if ← accepts text then
    let value ← part
    return some value
  else
    return none

end Attempt

/-- The rules of the grammar, by what they give and by whether they always consume a token.
The levels of expressions are counted from the loosest one; the loop of a level continues
behind a left operand. -/
inductive Rule : Bool → Type → Type where
  | level (depth : Nat) : Rule true (Expr .bare)
  | chain (depth : Nat) (left : Expr .bare) : Rule false (Expr .bare)
  | primary : Rule true (Expr .bare)
  | afterName (name : String) : Rule false (Expr .bare)
  | arguments (closing : String) : Rule true (List (Expr .bare))
  | items (closing : String) : Rule true (List (Expr .bare))
  | moreItems (closing : String) : Rule true (List (Expr .bare))
  | typeName : Rule true String
  | optionalType : Rule false (Option String)
  | declaration : Rule true (Stmt .bare)
  | returning : Rule true (Stmt .bare)
  | simple : Rule true (Stmt .bare)
  | statement : Rule true (Stmt .bare)
  | block : Rule false (List (Stmt .bare))
  | conditional : Rule true (Stmt .bare)
  | otherwise : Rule false (List (Stmt .bare))
  | loop : Rule true (Stmt .bare)
  | switch : Rule true (Stmt .bare)
  | cases : Rule true (List (Case .bare))
  | case : Rule true (Case .bare)
  | labelled : Rule true (Case .bare)
  | unlabelled : Rule false (Case .bare)
  | listGlobal : Rule true (GlobalDef .bare)
  | mutableGlobal : Rule true (GlobalDef .bare)
  | immutableGlobal : Rule true (GlobalDef .bare)
  | globalDef : Rule true (GlobalDef .bare)
  | parameter : Rule true (String × Option String)
  | parameters : Rule true (List (String × Option String))
  | moreParameters : Rule true (List (String × Option String))
  | parameterList : Rule true (List (String × Option String))
  | functionDef : Rule true (FunctionDef .bare)
  | globals : Rule false (List (GlobalDef .bare))
  | functions : Rule false (List (FunctionDef .bare))
  | program : Rule false (Program .bare)

namespace Rule

/-- The operators of a level. -/
def operatorsAt (depth : Nat) : List String :=
  levels[depth]?.getD []

/-- The rule as a function of the tokens. -/
def reading : {consumes : Bool} → {α : Type} → Rule consumes α →
    (tokens : List Token) → Reading consumes α tokens
  | _, _, level depth => Grammar.level (levels.drop depth)
  | _, _, chain depth left => Grammar.chain (operatorsAt depth) (levels.drop (depth + 1)) left
  | _, _, primary => Grammar.primary
  | _, _, afterName name => Grammar.afterName name
  | _, _, arguments closing => Grammar.arguments closing
  | _, _, items closing => Grammar.items closing
  | _, _, moreItems closing => Grammar.moreItems closing
  | _, _, typeName => Grammar.typeName
  | _, _, optionalType => Grammar.optionalType
  | _, _, declaration => Grammar.declaration
  | _, _, returning => Grammar.returning
  | _, _, simple => Grammar.simple
  | _, _, statement => Grammar.statement
  | _, _, block => Grammar.block
  | _, _, conditional => Grammar.conditional
  | _, _, otherwise => Grammar.otherwise
  | _, _, loop => Grammar.loop
  | _, _, switch => Grammar.switch
  | _, _, cases => Grammar.cases
  | _, _, case => Grammar.case
  | _, _, labelled => Grammar.labelled
  | _, _, unlabelled => Grammar.unlabelled
  | _, _, listGlobal => Grammar.listGlobal
  | _, _, mutableGlobal => Grammar.mutableGlobal
  | _, _, immutableGlobal => Grammar.immutableGlobal
  | _, _, globalDef => Grammar.globalDef
  | _, _, parameter => Grammar.parameter
  | _, _, parameters => Grammar.parameters
  | _, _, moreParameters => Grammar.moreParameters
  | _, _, parameterList => Grammar.parameterList
  | _, _, functionDef => Grammar.functionDef
  | _, _, globals => Grammar.globals
  | _, _, functions => Grammar.functions
  | _, _, program => Grammar.program

end Rule

/-! ## What a rule does

A rule is given what it calls. Loops call themselves for their next turn. -/

namespace Attempt

variable (call : {consumes : Bool} → {α : Type} → Rule consumes α → Attempt α)

/-- An expression of a level. -/
def level (depth : Nat) : Attempt (Expr .bare) :=
  if depth < levels.length then do
    let left ← call (.level (depth + 1))
    call (.chain depth left)
  else
    call .primary

/-- The operators and operands of a level behind a left operand. -/
def chain (depth : Nat) (left : Expr .bare) : Attempt (Expr .bare) := do
  match ← next? with
  | some token =>
    if (Rule.operatorsAt depth).contains token.text then
      skip
      let right ← call (.level (depth + 1))
      call (.chain depth (.binary () token.text left right))
    else
      return left
  | none => return left

/-- A primary expression. -/
def primary : Attempt (Expr .bare) := do
  match ← next? with
  | some token =>
    match literal? token with
    | some (.ok literal) =>
      skip
      return .literal () literal
    | some (.error fault) => spoiled fault
    | none =>
      if token.text = "(" then
        skip
        let inner ← call (.level 0)
        expectAs .closingParenthesis ")"
        return .group () inner
      else if token.text = "[" then
        skip
        let elements ← call (.arguments "]")
        return .list () elements
      else if token.kind = .identifier then
        skip
        call (.afterName token.text)
      else
        refused .expression
  | none => refused .expression

/-- What may follow a name. -/
def afterName (name : String) : Attempt (Expr .bare) := do
  if ← accepts "[" then
    let offset ← call (.level 0)
    expectAs .closingBracket "]"
    return .element () () name offset
  else if ← accepts "(" then
    let arguments ← call (.arguments ")")
    return .call () () name arguments
  else
    return .access () () name

/-- Any number of expressions up to the closing mark. -/
def arguments (closing : String) : Attempt (List (Expr .bare)) := do
  if ← accepts closing then return [] else call (.items closing)

/-- At least one expression up to the closing mark. -/
def items (closing : String) : Attempt (List (Expr .bare)) := do
  let first ← call (.level 0)
  let rest ← call (.moreItems closing)
  return first :: rest

/-- The closing mark, or a comma and further expressions. -/
def moreItems (closing : String) : Attempt (List (Expr .bare)) := do
  if ← accepts closing then return []
  else if ← accepts "," then call (.items closing)
  else refused (.commaOr closing)

/-- The name of a type. -/
def typeName : Attempt String := do
  let name ← takeName .typeName
  if ← accepts "<" then
    let argument ← call .typeName
    expect ">"
    return name ++ "<" ++ argument ++ ">"
  else
    return name

/-- A colon and the name of a type, or nothing. -/
def optionalType : Attempt (Option String) :=
  optional ":" (call .typeName)

/-- A declaration behind its first word. -/
def declaration : Attempt (Stmt .bare) := do
  let name ← takeName .variableName
  let type ← call .optionalType
  let value ← optional "=" (call (.level 0))
  expect ";"
  return .declaration () name type value

/-- A return behind its first word. -/
def returning : Attempt (Stmt .bare) := do
  let value ← call (.level 0)
  expect ";"
  return .returning value

/-- A statement that starts with an expression. -/
def simple : Attempt (Stmt .bare) := do
  let target ← call (.level 0)
  if target.isPlace then
    let value ← optional "=" (call (.level 0))
    expect ";"
    return match value with
      | some value => .assignment target value
      | none => .expression target
  else
    expect ";"
    return .expression target

/-- A statement. -/
def statement : Attempt (Stmt .bare) := do
  if ← accepts "LET" then call .declaration
  else if ← accepts "SWITCH" then call .switch
  else if ← accepts "IF" then call .conditional
  else if ← accepts "WHILE" then call .loop
  else if ← accepts "RETURN" then call .returning
  else call .simple

/-- Statements up to a word that ends a block. -/
def block : Attempt (List (Stmt .bare)) := do
  match ← next? with
  | some token =>
    if blockEnds.contains token.text then
      return []
    else
      let first ← call .statement
      let rest ← call .block
      return first :: rest
  | none => return []

/-- A conditional behind its first word. -/
def conditional : Attempt (Stmt .bare) := do
  let condition ← call (.level 0)
  expect "DO"
  let thenBlock ← call .block
  let elseBlock ← call .otherwise
  expect "END"
  return .conditional condition thenBlock elseBlock

/-- The second block of a conditional. -/
def otherwise : Attempt (List (Stmt .bare)) := do
  if ← accepts "ELSE" then call .block else return []

/-- A loop behind its first word. -/
def loop : Attempt (Stmt .bare) := do
  let condition ← call (.level 0)
  expect "DO"
  let body ← call .block
  expect "END"
  return .loop condition body

/-- A switch behind its first word. -/
def switch : Attempt (Stmt .bare) := do
  let subject ← call (.level 0)
  let cases ← call .cases
  expect "END"
  return .switch subject cases

/-- Cases up to the default. -/
def cases : Attempt (List (Case .bare)) := do
  if ← sees "CASE" then
    let first ← call .case
    let rest ← call .cases
    return first :: rest
  else if ← sees "DEFAULT" then
    let last ← call .case
    return [last]
  else
    refused .caseOrDefault

/-- A case of a switch. -/
def case : Attempt (Case .bare) := do
  if ← accepts "CASE" then call .labelled
  else
    expect "DEFAULT"
    call .unlabelled

/-- A case behind its first word. -/
def labelled : Attempt (Case .bare) := do
  let label ← call (.level 0)
  expect ":"
  let body ← call .block
  return .mk (some label) body

/-- A default case behind its first word. -/
def unlabelled : Attempt (Case .bare) := do
  let _ ← optional ":" (return ())
  let body ← call .block
  return .mk none body

/-- A list global behind its first word. -/
def listGlobal : Attempt (GlobalDef .bare) := do
  let name ← takeName .listName
  let element ← call .optionalType
  expect "="
  expect "["
  if ← sees "]" then
    refused .listElement
  else
    let elements ← call (.items "]")
    return {
      name := name
      typeName := element.map fun type => "List<" ++ type ++ ">"
      mutable := true
      value := some (.list () elements)
      entry := () }

/-- A mutable global behind its first word. -/
def mutableGlobal : Attempt (GlobalDef .bare) := do
  let name ← takeName .variableName
  let type ← call .optionalType
  let value ← optional "=" (call (.level 0))
  return ⟨name, type, true, value, ()⟩

/-- An immutable global behind its first word. -/
def immutableGlobal : Attempt (GlobalDef .bare) := do
  let name ← takeName .variableName
  let type ← call .optionalType
  expectAs .immutableValue "="
  let value ← call (.level 0)
  return ⟨name, type, false, some value, ()⟩

/-- A global of the kind that its first word tells. -/
def openGlobal : Attempt (GlobalDef .bare) := do
  if ← accepts "LIST" then call .listGlobal
  else if ← accepts "VAR" then call .mutableGlobal
  else if ← accepts "VAL" then call .immutableGlobal
  else refused .globalKeyword

/-- A global with its semicolon. -/
def globalDef : Attempt (GlobalDef .bare) := do
  let definition ← openGlobal call
  expect ";"
  return definition

/-- A parameter with its optional type. -/
def parameter : Attempt (String × Option String) := do
  let name ← takeName .parameterName
  let type ← call .optionalType
  return (name, type)

/-- At least one parameter up to the closing parenthesis. -/
def parameters : Attempt (List (String × Option String)) := do
  let first ← call .parameter
  let rest ← call .moreParameters
  return first :: rest

/-- The closing parenthesis, or a comma and further parameters. -/
def moreParameters : Attempt (List (String × Option String)) := do
  if ← accepts ")" then return []
  else if ← accepts "," then call .parameters
  else refused (.commaOr ")")

/-- Any number of parameters up to the closing parenthesis. -/
def parameterList : Attempt (List (String × Option String)) := do
  if ← accepts ")" then return [] else call .parameters

/-- A function. -/
def functionDef : Attempt (FunctionDef .bare) := do
  expect "FUN"
  let name ← takeName .functionName
  expect "("
  let parameters ← call .parameterList
  let result ← call .optionalType
  expect "DO"
  let body ← call .block
  expect "END"
  return ⟨name, parameters.map (·.1), parameters.map (·.2), result, body, ()⟩

/-- The globals up to the first other token. -/
def globals : Attempt (List (GlobalDef .bare)) := do
  match ← next? with
  | some token =>
    if globalStarts.contains token.text then
      let first ← call .globalDef
      let rest ← call .globals
      return first :: rest
    else
      return []
  | none => return []

/-- The functions up to the first other token. -/
def functions : Attempt (List (FunctionDef .bare)) := do
  if ← sees "FUN" then
    let first ← call .functionDef
    let rest ← call .functions
    return first :: rest
  else
    return []

/-- Nothing but the end of the tokens. -/
def endOfTokens : Attempt Unit := do
  match ← next? with
  | some _ => refused .definition
  | none => return ()

/-- A program with nothing behind it. -/
def program : Attempt (Program .bare) := do
  let globals ← call .globals
  let functions ← call .functions
  endOfTokens
  return ⟨globals, functions⟩

end Attempt

namespace Rule

/-- What the rule does. -/
def body (call : {consumes : Bool} → {α : Type} → Rule consumes α → Attempt α) :
    {consumes : Bool} → {α : Type} → Rule consumes α → Attempt α
  | _, _, level depth => Attempt.level call depth
  | _, _, chain depth left => Attempt.chain call depth left
  | _, _, primary => Attempt.primary call
  | _, _, afterName name => Attempt.afterName call name
  | _, _, arguments closing => Attempt.arguments call closing
  | _, _, items closing => Attempt.items call closing
  | _, _, moreItems closing => Attempt.moreItems call closing
  | _, _, typeName => Attempt.typeName call
  | _, _, optionalType => Attempt.optionalType call
  | _, _, declaration => Attempt.declaration call
  | _, _, returning => Attempt.returning call
  | _, _, simple => Attempt.simple call
  | _, _, statement => Attempt.statement call
  | _, _, block => Attempt.block call
  | _, _, conditional => Attempt.conditional call
  | _, _, otherwise => Attempt.otherwise call
  | _, _, loop => Attempt.loop call
  | _, _, switch => Attempt.switch call
  | _, _, cases => Attempt.cases call
  | _, _, case => Attempt.case call
  | _, _, labelled => Attempt.labelled call
  | _, _, unlabelled => Attempt.unlabelled call
  | _, _, listGlobal => Attempt.listGlobal call
  | _, _, mutableGlobal => Attempt.mutableGlobal call
  | _, _, immutableGlobal => Attempt.immutableGlobal call
  | _, _, globalDef => Attempt.globalDef call
  | _, _, parameter => Attempt.parameter call
  | _, _, parameters => Attempt.parameters call
  | _, _, moreParameters => Attempt.moreParameters call
  | _, _, parameterList => Attempt.parameterList call
  | _, _, functionDef => Attempt.functionDef call
  | _, _, globals => Attempt.globals call
  | _, _, functions => Attempt.functions call
  | _, _, program => Attempt.program call

/-- The rule with a budget of nested calls. A call that finds it used up is broken off. -/
def attempt : Nat → {consumes : Bool} → {α : Type} → Rule consumes α → Attempt α
  | 0, _, _, _ => .brokenOff
  | budget + 1, _, _, rule => rule.body (attempt budget)

end Rule

end Blockscript.Grammar
