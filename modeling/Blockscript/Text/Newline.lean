/-!
# Line ends

A line may end with a line feed, a carriage return, or the two together. Program
files are read with every one of these as a single line feed.
-/

namespace Blockscript.Text

/-- Replaces every line end by a line feed. -/
def unifyNewlines : List Char → List Char
  | [] => []
  | '\r' :: '\n' :: rest => '\n' :: unifyNewlines rest
  | '\r' :: rest => '\n' :: unifyNewlines rest
  | character :: rest => character :: unifyNewlines rest

end Blockscript.Text
