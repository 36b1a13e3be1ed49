import Blockscript.Main
import Blockscript.Proofs.Grammar.Derivation
import Blockscript.Proofs.Grammar.Soundness
import Blockscript.Proofs.Token.Genuine
import Blockscript.Proofs.Grammar.Completeness
import Blockscript.Proofs.Grammar.Exactness
import Blockscript.Proofs.Scopes.Operations
import Blockscript.Proofs.Scopes.Lexical
import Blockscript.Proofs.Typing.Judgement
import Blockscript.Proofs.Typing.Passing
import Blockscript.Proofs.Typing.Soundness
import Blockscript.Proofs.Typing.Programs
import Blockscript.Proofs.Decimal.Digits
import Blockscript.Proofs.Decimal.Range
import Blockscript.Proofs.Decimal.Exactness
import Blockscript.Proofs.Decimal.Nearest
import Blockscript.Proofs.Decimal.Division
import Blockscript.Proofs.Running.Chronicle
import Blockscript.Proofs.Running.Conformance
import Blockscript.Proofs.Running.Correspondence
import Blockscript.Proofs.Running.Fidelity
import Blockscript.Proofs.Running.Invariant
import Blockscript.Proofs.Running.Preservation
import Blockscript.Proofs.Running.Programs
import Blockscript.Proofs.Running.Soundness
import Blockscript.Proofs.Running.Law
import Blockscript.Proofs.Running.Discipline
import Blockscript.Proofs.Scopes.Lifting
import Blockscript.Proofs.Running.Insulation
import Blockscript.Proofs.Running.Calls
import Blockscript.Proofs.Running.Tracing
import Blockscript.Proofs.Decimal.Magnitude
import Blockscript.Proofs.Typing.Operators
import Blockscript.Proofs.Typing.Derivation
import Blockscript.Proofs.Typing.Decision
import Blockscript.Proofs.Typing.Agreement
import Blockscript.Proofs.Typing.Erasure
import Blockscript.Proofs.Typing.Occurrences
import Blockscript.Proofs.Grammar.Written
import Blockscript.Proofs.Grammar.TypeNames
import Blockscript.Proofs.Java.Reading
import Blockscript.Proofs.Java.Wording
import Blockscript.Proofs.Java.Structure
import Blockscript.Proofs.Token.Classes
import Blockscript.Proofs.Token.Scanning
import Blockscript.Proofs.Token.Spacing
import Blockscript.Proofs.Grammar.Relocation
import Blockscript.Proofs.Decimal.Notation
import Blockscript.Proofs.Java.Literals
import Blockscript.Proofs.Running.Assignment
import Blockscript.Proofs.Typing.Failing
import Blockscript.Proofs.Typing.Marks
import Blockscript.Proofs.Typing.Inference
import Blockscript.Proofs.Grammar.Failure
import Blockscript.Proofs.Grammar.Locality
import Blockscript.Proofs.Grammar.Completion
import Blockscript.Proofs.Grammar.Placement
import Blockscript.Proofs.Typing.Annotation
import Blockscript.Proofs.Tree.Document
import Blockscript.Proofs.Java.Emission
import Blockscript.Proofs.Running.Depth
import Blockscript.Proofs.Running.Termination
import Blockscript.Proofs.Running.Presence
import Blockscript.Proofs.Running.Definite
import Blockscript.Proofs.Running.Results
import Blockscript.Proofs.Token.Diagnosis
import Blockscript.Proofs.Grammar.Pointing
import Blockscript.Proofs.Running.Kinds
import Blockscript.Proofs.Typing.Naming
import Blockscript.Proofs.Tree.Exposure
import Blockscript.Proofs.Tree.Likeness
import Blockscript.Proofs.Tree.Recovery
import Blockscript.Proofs.Decimal.Comparison
import Blockscript.Proofs.Values.Contents
import Blockscript.Proofs.Values.Equality
import Blockscript.Proofs.Values.Ordering
import Blockscript.Proofs.Typing.Discipline
import Blockscript.Proofs.Scopes.Linked
import Blockscript.Proofs.Scopes.Sound
import Blockscript.Proofs.Scopes.Refinement
import Blockscript.Proofs.Running.Constancy
import Blockscript.Proofs.Running.Course
import Blockscript.Proofs.Running.Immutability
import Blockscript.Proofs.Grammar.Progress
import Blockscript.Proofs.Java.Writing
import Blockscript.Proofs.Java.Inline
import Blockscript.Proofs.Java.Indentation
import Blockscript.Proofs.Grammar.Numerals
import Blockscript.Proofs.Java.Texts
import Blockscript.Proofs.Values.Writing
