/-!
# Options of the command line

The command takes a program file, or one of two options with a file of their
own, and flags for the detail of the trace. Long options may be abbreviated as
long as only one option starts that way, and take their argument behind an
equals sign or as the next word. Flags may stand together behind one hyphen. A
double hyphen ends the options. A word that looks like a negative number, or
that contains a space, is a file name even with a leading hyphen.

Words are read from left to right. Everything that does not fit makes the whole
command line wrong, but a request for help that comes first still counts.
-/

namespace Blockscript.CommandLine

/-- The long options. -/
inductive LongOption where
  | help
  | emitTree
  | emitJava
deriving DecidableEq, Inhabited

namespace LongOption

/-- The full name of an option. -/
def name : LongOption → String
  | help => "--help"
  | emitTree => "--emit-ast"
  | emitJava => "--generate"

/-- All long options. -/
def all : List LongOption :=
  [help, emitTree, emitJava]

/-- The options that a name may abbreviate. The full name of an option is no
beginning of another one. -/
def abbreviatedBy (letters : List Char) : List LongOption :=
  all.filter fun option => letters.isPrefixOf option.name.toList

end LongOption

/-- One word of the command line by its form. -/
inductive Word where
  /-- A file name. -/
  | file (name : String)
  /-- Flags behind one hyphen. -/
  | flags (letters : List Char)
  /-- A long option, with what stands behind its equals sign. -/
  | long (option : LongOption) (argument : Option String)
  /-- A word with a leading hyphen that means nothing. -/
  | unknown
  /-- An abbreviation of several options. -/
  | ambiguous
deriving DecidableEq, Inhabited

/-- Whether a word is a negative number: digits behind the hyphen, with or
without a point, and at least one digit behind a point. -/
def isNegativeNumber (letters : List Char) : Bool :=
  match letters with
  | '-' :: number =>
    let whole := number.takeWhile Char.isDigit
    match number.dropWhile Char.isDigit with
    | [] => !whole.isEmpty
    | '.' :: fraction => !fraction.isEmpty && fraction.all Char.isDigit
    | _ => false
  | _ => false

/-- A word with a leading hyphen that is neither a flag nor a long option. -/
def Word.ofOther (letters : List Char) : Word :=
  if isNegativeNumber letters || letters.contains ' ' then .file (String.ofList letters)
  else .unknown

/-- The form of a word. -/
def Word.ofText (text : String) : Word :=
  let letters := text.toList
  match letters with
  | '-' :: '-' :: _ =>
    let name := letters.takeWhile (· ≠ '=')
    let argument := (letters.dropWhile (· ≠ '=')).tail?.map String.ofList
    match LongOption.abbreviatedBy name with
    | [] => .ofOther letters
    | [option] => .long option argument
    | _ => .ambiguous
  | '-' :: first :: rest =>
    if first = 'v' || first = 'h' then .flags (first :: rest) else .ofOther letters
  | _ => .file text

/-- What the words read so far ask for. -/
structure Options where
  detail : Nat := 0
  tree : Option String := none
  java : Option String := none
  program : Option String := none
deriving DecidableEq, Inhabited

/-- Why no command is carried out. -/
inductive Refusal where
  | help
  | usage
deriving DecidableEq, Inhabited

namespace Options

/-- Takes a file name as the program. There is only one. -/
def withFile (options : Options) (name : String) : Except Refusal Options :=
  if options.program.isSome then .error .usage else .ok { options with program := some name }

/-- Takes flags. -/
def withFlags (options : Options) (letters : List Char) : Except Refusal Options :=
  match letters with
  | [] => .ok options
  | 'v' :: rest => withFlags { options with detail := options.detail + 1 } rest
  | 'h' :: _ => .error .help
  | _ => .error .usage

/-- Takes a long option with its argument. The two that take a file exclude each
other. -/
def withOption (options : Options) (option : LongOption) (argument : String) :
    Except Refusal Options :=
  match option with
  | .help => .error .usage
  | .emitTree =>
    if options.java.isSome then .error .usage else .ok { options with tree := some argument }
  | .emitJava =>
    if options.tree.isSome then .error .usage else .ok { options with java := some argument }

/-- Takes words that are all file names. -/
def withFiles (options : Options) : List String → Except Refusal Options
  | [] => .ok options
  | name :: rest => do
    withFiles (← options.withFile name) rest

/-- Takes words from left to right. -/
def withWords (options : Options) : List String → Except Refusal Options
  | [] => .ok options
  | word :: rest =>
    if word = "--" then
      options.withFiles rest
    else
      match Word.ofText word, rest with
      | .file name, rest => do withWords (← options.withFile name) rest
      | .flags letters, rest => do withWords (← options.withFlags letters) rest
      | .long .help none, _ => .error .help
      | .long option (some argument), rest => do
        withWords (← options.withOption option argument) rest
      | .long option none, next :: rest =>
        match Word.ofText next with
        | .file argument => do withWords (← options.withOption option argument) rest
        | _ => .error .usage
      | .long _ none, [] => .error .usage
      | .unknown, _ | .ambiguous, _ => .error .usage

end Options

/-- What the command is to do with a file. -/
inductive Command where
  | emitTree (path : String)
  | emitJava (path : String)
  | run (detail : Nat) (path : String)
deriving DecidableEq, Inhabited

/-- The command that options ask for. An empty file name asks for nothing. -/
def Options.command (options : Options) : Except Refusal Command :=
  match options.tree.filter (· ≠ ""), options.java.filter (· ≠ ""),
    options.program.filter (· ≠ "") with
  | some path, _, _ => .ok (.emitTree path)
  | none, some path, _ => .ok (.emitJava path)
  | none, none, some path => .ok (.run options.detail path)
  | none, none, none => .error .usage

/-- The command of a command line. -/
def Command.ofWords (words : List String) : Except Refusal Command := do
  (← Options.withWords {} words).command

end Blockscript.CommandLine
