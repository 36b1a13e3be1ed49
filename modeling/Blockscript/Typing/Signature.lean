import Blockscript.Environment
import Blockscript.Tree.Json

/-!
# Trees with types

What checking writes on the nodes of a tree: on every expression its type, on
every use of a variable the variable that is meant, and on every call the types
of the function that is called. A definition carries what it defines.
-/

namespace Blockscript

/-- The types of a function's parameters and of its result. -/
structure Signature where
  parameters : List Ty
  result : Ty
deriving DecidableEq, Inhabited

/-- The notes of a checked tree. -/
abbrev Notes.checked : Notes :=
  ⟨Ty, Variable Unit, Signature⟩

instance : Shown .checked :=
  ⟨some, fun entry => some entry.type, fun signature => some signature.result⟩

end Blockscript
