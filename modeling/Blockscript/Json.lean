/-!
# JSON documents

Documents with their members in order, and their indented text. A nonempty array
or object stands on several lines, one item a line, two spaces deeper than its
brackets; an empty one is just its brackets. Only quotes, backslashes and control
characters are escaped.
-/

namespace Blockscript

/-- A JSON document. Numbers are integers. -/
inductive Json where
  | null
  | boolean (truth : Bool)
  | integer (number : Int)
  | string (text : String)
  | array (items : List Json)
  | object (members : List (String × Json))
deriving Inhabited

namespace Json

/-- A hexadecimal digit in lower case. -/
def hexDigit (number : Nat) : Char :=
  Nat.digitChar (number % 16)

/-- A character inside a JSON string. -/
def letters (character : Char) : List Char :=
  if character = '"' then ['\\', '"']
  else if character = '\\' then ['\\', '\\']
  else if character = '\n' then ['\\', 'n']
  else if character = '\r' then ['\\', 'r']
  else if character = '\t' then ['\\', 't']
  else if character = '\x0c' then ['\\', 'f']
  else if character = '\x08' then ['\\', 'b']
  else if character.toNat < 0x20 then
    ['\\', 'u', '0', '0', hexDigit (character.toNat / 16), hexDigit character.toNat]
  else [character]

/-- A text as a JSON string. -/
def quoted (text : String) : String :=
  String.ofList ('"' :: (text.toList.flatMap letters ++ ['"']))

/-- The start of a line at a depth. -/
def newLine (depth : Nat) : String :=
  String.ofList ('\n' :: List.replicate (2 * depth) ' ')

mutual

/-- The text of a document whose brackets stand at a depth. -/
def textAt (depth : Nat) : Json → String
  | null => "null"
  | boolean truth => if truth then "true" else "false"
  | integer number => toString number
  | string text => quoted text
  | array [] => "[]"
  | array (first :: rest) =>
    "[" ++ newLine (depth + 1) ++ first.textAt (depth + 1) ++ restOfItems (depth + 1) rest ++
      newLine depth ++ "]"
  | object [] => "\x7b\x7d"
  | object ((name, first) :: rest) =>
    "\x7b" ++ newLine (depth + 1) ++ quoted name ++ ": " ++ first.textAt (depth + 1) ++
      restOfMembers (depth + 1) rest ++ newLine depth ++ "\x7d"

/-- The further items of an array. -/
def restOfItems (depth : Nat) : List Json → String
  | [] => ""
  | item :: rest => "," ++ newLine depth ++ item.textAt depth ++ restOfItems depth rest

/-- The further members of an object. -/
def restOfMembers (depth : Nat) : List (String × Json) → String
  | [] => ""
  | (name, member) :: rest =>
    "," ++ newLine depth ++ quoted name ++ ": " ++ member.textAt depth ++
      restOfMembers depth rest

end

/-- The indented text of a document. -/
def text (document : Json) : String :=
  document.textAt 0

end Json

end Blockscript
