/-!
# Binary operators

The operators with a meaning. A tree keeps an operator as it was written; a text
that is none of these has no meaning, and both checking and running refuse it.
-/

namespace Blockscript

/-- The binary operators. -/
inductive Operator where
  | and
  | or
  | less
  | greater
  | equal
  | notEqual
  | plus
  | minus
  | times
  | divide
  | power
deriving DecidableEq, Inhabited

namespace Operator

/-- The written form of an operator. -/
def text : Operator → String
  | and => "&&"
  | or => "||"
  | less => "<"
  | greater => ">"
  | equal => "=="
  | notEqual => "!="
  | plus => "+"
  | minus => "-"
  | times => "*"
  | divide => "/"
  | power => "^"

/-- All operators. -/
def all : List Operator :=
  [and, or, less, greater, equal, notEqual, plus, minus, times, divide, power]

/-- The operator with a written form. -/
def ofText? (text : String) : Option Operator :=
  all.find? fun operator => operator.text = text

/-- Reading is the inverse of writing. -/
theorem ofText?_text (operator : Operator) : ofText? operator.text = some operator := by
  cases operator <;> decide

end Operator

end Blockscript
