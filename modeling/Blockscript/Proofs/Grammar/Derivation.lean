import Blockscript.Grammar.Program

/-!
# Derivations

The grammar as a relation between tokens and trees, apart from any way of
reading. A phrase is a list of tokens, and a production says which phrases in
which order make up another one. Nothing here looks ahead, and no production
mentions what follows its phrase.

The language does not reserve its words. Where a name could stand and a word of
the grammar could stand as well, the production of the name says which words it
leaves out; these are the only readings that the productions fix beyond their
shape.
-/

namespace Blockscript.Grammar.Phrase

/-- A word and a phrase behind it, or nothing. -/
inductive Optional {α : Type} (word : String) (phrase : List Token → α → Prop) :
    List Token → Option α → Prop where
  | absent : Optional word phrase [] none
  | present {mark : Token} {inner : List Token} {value : α} :
      mark.text = word → phrase inner value → Optional word phrase (mark :: inner) (some value)

/-- The name of a type, with the name of its argument in angle brackets. -/
inductive TypeName : List Token → String → Prop where
  | plain {name : Token} :
      name.kind = .identifier → TypeName [name] name.text
  | applied {name opening closing : Token} {inner : List Token} {argument : String} :
      name.kind = .identifier → opening.text = "<" → TypeName inner argument →
      closing.text = ">" →
      TypeName (name :: opening :: inner ++ [closing]) (name.text ++ "<" ++ argument ++ ">")

/-- A type behind its colon, or nothing. -/
abbrev OptionalType : List Token → Option String → Prop :=
  Optional ":" TypeName

/-- A text denotes an integer, whatever the number of its digits. -/
def Denotes (text : String) (number : Int) : Prop :=
  ∃ limit, readIntegerWithin limit text = .ok number

/-- The binary operators by precedence, from the loosest to the tightest: the logical
ones, the comparisons, the sums, and the products with the power among them. -/
def precedence : List (List String) :=
  [["&&", "||"], ["<", ">", "==", "!="], ["+", "-"], ["*", "/", "^"]]

/-- The words that are literals wherever an operand may stand. -/
def literalWords : List String :=
  ["NIL", "TRUE", "FALSE"]

mutual

/-- An expression whose loosest operators are those of the first of the given
levels. The left operand of a binary expression may be one of the same level and
the right operand may not; so a level associates to the left. -/
inductive Level : List (List String) → List Token → Expr .bare → Prop where
  | primary {tokens : List Token} {tree : Expr .bare} :
      Primary tokens tree → Level [] tokens tree
  | operand {loosest : List String} {tighter : List (List String)} {tokens : List Token}
      {tree : Expr .bare} :
      Level tighter tokens tree → Level (loosest :: tighter) tokens tree
  | binary {loosest : List String} {tighter : List (List String)} {left right : List Token}
      {operator : Token} {leftTree rightTree : Expr .bare} :
      Level (loosest :: tighter) left leftTree → operator.text ∈ loosest →
      Level tighter right rightTree →
      Level (loosest :: tighter) (left ++ operator :: right)
        (.binary () operator.text leftTree rightTree)

/-- An operand. -/
inductive Primary : List Token → Expr .bare → Prop where
  | nil {token : Token} :
      token.text = "NIL" → Primary [token] (.literal () .nil)
  | true {token : Token} :
      token.text = "TRUE" → Primary [token] (.literal () (.boolean true))
  | false {token : Token} :
      token.text = "FALSE" → Primary [token] (.literal () (.boolean false))
  | integer {token : Token} {number : Int} :
      token.kind = .integer → Denotes token.text number →
      Primary [token] (.literal () (.integer number))
  | decimal {token : Token} {number : Decimal} :
      token.kind = .decimal → Decimal.read token.text = .ok number →
      Primary [token] (.literal () (.decimal number))
  | character {token : Token} :
      token.kind = .character →
      Primary [token] (.literal () (.character (quotedText token.text)))
  | string {token : Token} :
      token.kind = .string →
      Primary [token] (.literal () (.string (quotedText token.text)))
  | group {opening closing : Token} {inner : List Token} {tree : Expr .bare} :
      opening.text = "(" → Level precedence inner tree → closing.text = ")" →
      Primary (opening :: inner ++ [closing]) (.group () tree)
  | list {opening closing : Token} {inner : List Token} {elements : List (Expr .bare)} :
      opening.text = "[" → Arguments inner elements → closing.text = "]" →
      Primary (opening :: inner ++ [closing]) (.list () elements)
  | access {name : Token} :
      name.kind = .identifier → name.text ∉ literalWords →
      Primary [name] (.access () () name.text)
  | element {name opening closing : Token} {inner : List Token} {offset : Expr .bare} :
      name.kind = .identifier → name.text ∉ literalWords →
      opening.text = "[" → Level precedence inner offset → closing.text = "]" →
      Primary (name :: opening :: inner ++ [closing]) (.element () () name.text offset)
  | call {name opening closing : Token} {inner : List Token} {arguments : List (Expr .bare)} :
      name.kind = .identifier → name.text ∉ literalWords →
      opening.text = "(" → Arguments inner arguments → closing.text = ")" →
      Primary (name :: opening :: inner ++ [closing]) (.call () () name.text arguments)

/-- At least one expression, with commas between them. -/
inductive Items : List Token → List (Expr .bare) → Prop where
  | last {tokens : List Token} {tree : Expr .bare} :
      Level precedence tokens tree → Items tokens [tree]
  | more {tokens others : List Token} {comma : Token} {tree : Expr .bare}
      {trees : List (Expr .bare)} :
      Level precedence tokens tree → comma.text = "," → Items others trees →
      Items (tokens ++ comma :: others) (tree :: trees)

/-- Any number of expressions, with commas between them. -/
inductive Arguments : List Token → List (Expr .bare) → Prop where
  | none : Arguments [] []
  | some {tokens : List Token} {trees : List (Expr .bare)} :
      Items tokens trees → Arguments tokens trees

end

/-- An expression. -/
abbrev Expression : List Token → Expr .bare → Prop :=
  Level precedence

/-- The words that make a statement one of the kinds that have a word of their
own. -/
def statementWords : List String :=
  ["LET", "SWITCH", "IF", "WHILE", "RETURN"]

/-- Whether the tokens start with none of the words. -/
def Clear (words : List String) (tokens : List Token) : Prop :=
  ∀ token ∈ tokens.head?, token.text ∉ words

mutual

/-- A statement. An expression is one only if it does not start with a word that
starts another statement, and takes an assignment only if it is nothing but a
variable or a list element. -/
inductive Statement : List Token → Stmt .bare → Prop where
  | declaration {start name stop : Token} {type value : List Token} {typeName : Option String}
      {tree : Option (Expr .bare)} :
      start.text = "LET" → name.kind = .identifier → OptionalType type typeName →
      Optional "=" Expression value tree → stop.text = ";" →
      Statement (start :: name :: type ++ value ++ [stop])
        (.declaration () name.text typeName tree)
  | switch {start stop : Token} {subject inside : List Token} {tree : Expr .bare}
      {cases : List (Case .bare)} :
      start.text = "SWITCH" → Expression subject tree → Cases inside cases →
      stop.text = "END" →
      Statement (start :: subject ++ inside ++ [stop]) (.switch tree cases)
  | conditional {start begin stop : Token} {condition body : List Token} {tree : Expr .bare}
      {thenBlock : List (Stmt .bare)} :
      start.text = "IF" → Expression condition tree → begin.text = "DO" →
      Block body thenBlock → stop.text = "END" →
      Statement (start :: condition ++ begin :: body ++ [stop])
        (.conditional tree thenBlock [])
  | alternative {start begin middle stop : Token} {condition body other : List Token}
      {tree : Expr .bare} {thenBlock elseBlock : List (Stmt .bare)} :
      start.text = "IF" → Expression condition tree → begin.text = "DO" →
      Block body thenBlock → middle.text = "ELSE" → Block other elseBlock →
      stop.text = "END" →
      Statement (start :: condition ++ begin :: body ++ middle :: other ++ [stop])
        (.conditional tree thenBlock elseBlock)
  | loop {start begin stop : Token} {condition inside : List Token} {tree : Expr .bare}
      {body : List (Stmt .bare)} :
      start.text = "WHILE" → Expression condition tree → begin.text = "DO" →
      Block inside body → stop.text = "END" →
      Statement (start :: condition ++ begin :: inside ++ [stop]) (.loop tree body)
  | returning {start stop : Token} {value : List Token} {tree : Expr .bare} :
      start.text = "RETURN" → Expression value tree → stop.text = ";" →
      Statement (start :: value ++ [stop]) (.returning tree)
  | expression {tokens : List Token} {stop : Token} {tree : Expr .bare} :
      Expression tokens tree → Clear statementWords tokens → stop.text = ";" →
      Statement (tokens ++ [stop]) (.expression tree)
  | assignment {receiver value : List Token} {equals stop : Token}
      {receiverTree valueTree : Expr .bare} :
      Expression receiver receiverTree → Clear statementWords receiver →
      receiverTree.isPlace = true → equals.text = "=" → Expression value valueTree →
      stop.text = ";" →
      Statement (receiver ++ equals :: value ++ [stop]) (.assignment receiverTree valueTree)

/-- Statements of which none starts with a word that ends a block. -/
inductive Block : List Token → List (Stmt .bare) → Prop where
  | empty : Block [] []
  | cons {first others : List Token} {statement : Stmt .bare} {statements : List (Stmt .bare)} :
      Statement first statement → Clear blockEnds first → Block others statements →
      Block (first ++ others) (statement :: statements)

/-- Labelled cases, and the default behind the last of them. The colon of the
default may be left out. -/
inductive Cases : List Token → List (Case .bare) → Prop where
  | labelled {start colon : Token} {label inside others : List Token} {tree : Expr .bare}
      {body : List (Stmt .bare)} {cases : List (Case .bare)} :
      start.text = "CASE" → Expression label tree → colon.text = ":" → Block inside body →
      Cases others cases →
      Cases (start :: label ++ colon :: inside ++ others) (.mk (some tree) body :: cases)
  | default {start colon : Token} {inside : List Token} {body : List (Stmt .bare)} :
      start.text = "DEFAULT" → colon.text = ":" → Block inside body →
      Cases (start :: colon :: inside) [.mk none body]
  | bareDefault {start : Token} {inside : List Token} {body : List (Stmt .bare)} :
      start.text = "DEFAULT" → Block inside body →
      Cases (start :: inside) [.mk none body]

end

/-- A global with its semicolon. -/
inductive Global : List Token → GlobalDef .bare → Prop where
  | list {start name equals opening closing stop : Token} {type inside : List Token}
      {element : Option String} {elements : List (Expr .bare)} :
      start.text = "LIST" → name.kind = .identifier → OptionalType type element →
      equals.text = "=" → opening.text = "[" → Items inside elements → closing.text = "]" →
      stop.text = ";" →
      Global (start :: name :: type ++ equals :: opening :: inside ++ [closing, stop])
        ⟨name.text, element.map fun element => "List<" ++ element ++ ">", true,
          some (.list () elements), ()⟩
  | mutable {start name stop : Token} {type value : List Token} {typeName : Option String}
      {tree : Option (Expr .bare)} :
      start.text = "VAR" → name.kind = .identifier → OptionalType type typeName →
      Optional "=" Expression value tree → stop.text = ";" →
      Global (start :: name :: type ++ value ++ [stop]) ⟨name.text, typeName, true, tree, ()⟩
  | immutable {start name equals stop : Token} {type value : List Token}
      {typeName : Option String} {tree : Expr .bare} :
      start.text = "VAL" → name.kind = .identifier → OptionalType type typeName →
      equals.text = "=" → Expression value tree → stop.text = ";" →
      Global (start :: name :: type ++ equals :: value ++ [stop])
        ⟨name.text, typeName, false, some tree, ()⟩

/-- A parameter with its optional type. -/
inductive Parameter : List Token → String × Option String → Prop where
  | mk {name : Token} {type : List Token} {typeName : Option String} :
      name.kind = .identifier → OptionalType type typeName →
      Parameter (name :: type) (name.text, typeName)

/-- At least one parameter, with commas between them. -/
inductive Parameters : List Token → List (String × Option String) → Prop where
  | last {tokens : List Token} {parameter : String × Option String} :
      Parameter tokens parameter → Parameters tokens [parameter]
  | more {tokens others : List Token} {comma : Token} {parameter : String × Option String}
      {parameters : List (String × Option String)} :
      Parameter tokens parameter → comma.text = "," → Parameters others parameters →
      Parameters (tokens ++ comma :: others) (parameter :: parameters)

/-- Any number of parameters, with commas between them. -/
inductive ParameterList : List Token → List (String × Option String) → Prop where
  | none : ParameterList [] []
  | some {tokens : List Token} {parameters : List (String × Option String)} :
      Parameters tokens parameters → ParameterList tokens parameters

/-- A function. -/
inductive Function : List Token → FunctionDef .bare → Prop where
  | mk {start name opening closing begin stop : Token} {inside type body : List Token}
      {parameters : List (String × Option String)} {result : Option String}
      {statements : List (Stmt .bare)} :
      start.text = "FUN" → name.kind = .identifier → opening.text = "(" →
      ParameterList inside parameters → closing.text = ")" → OptionalType type result →
      begin.text = "DO" → Block body statements → stop.text = "END" →
      Function (start :: name :: opening :: inside ++ closing :: type ++ begin :: body ++ [stop])
        ⟨name.text, parameters.map (·.1), parameters.map (·.2), result, statements, ()⟩

/-- Phrases of one sort behind one another. -/
inductive Sequence {α : Type} (phrase : List Token → α → Prop) : List Token → List α → Prop where
  | empty : Sequence phrase [] []
  | cons {first others : List Token} {value : α} {values : List α} :
      phrase first value → Sequence phrase others values →
      Sequence phrase (first ++ others) (value :: values)

/-- A program: globals, then functions. -/
inductive Program : List Token → Blockscript.Program .bare → Prop where
  | mk {front back : List Token} {globals : List (GlobalDef .bare)}
      {functions : List (FunctionDef .bare)} :
      Sequence Global front globals → Sequence Function back functions →
      Program (front ++ back) ⟨globals, functions⟩

end Blockscript.Grammar.Phrase
