import Blockscript.Proofs.Decimal.Range
import Blockscript.Proofs.Running.Conformance
import Blockscript.Proofs.Typing.Operators
import Blockscript.Running.Evaluation

/-!
# Operations on typed values

What literals, operators and the tests on values give when the values are of the
types that the checker asks for. An operation that gives no value then has met nil, a
number that it cannot work with, or two kinds that only share being comparable.
-/

namespace Blockscript

namespace Value

variable {value : Value}

/-- A value of the kind of integers is one. -/
theorem exists_integer (kind : value.kind = .integer) : ∃ number, value = .integer number := by
  cases value <;> simp [Value.kind] at kind ⊢

/-- A value of the kind of decimals is one. -/
theorem exists_decimal (kind : value.kind = .decimal) : ∃ number, value = .decimal number := by
  cases value <;> simp [Value.kind] at kind ⊢

/-- A value of the kind of characters is one. -/
theorem exists_character (kind : value.kind = .character) : ∃ text, value = .character text := by
  cases value <;> simp [Value.kind] at kind ⊢

/-- A value of the kind of strings is one. -/
theorem exists_string (kind : value.kind = .string) : ∃ text, value = .string text := by
  cases value <;> simp [Value.kind] at kind ⊢

end Value

namespace Chronicle

open Running

/-- Whether a checked program may meet the fault wherever it stands: the fault blames a
divisor, a power, an index, an immutable variable or an integer that is too long to be
written, or it blames kinds one of which is nil. -/
def Pardoned : RunFault → Prop
  | .divisionByZero | .powerOfZero | .powerFailed _ _ _ | .negativeExponent | .outOfRange _
  | .immutable _ | .unwritable => True
  | .notBoolean _ kind | .notList _ kind | .offset kind | .exponent kind | .powerBase kind =>
    kind = .nil
  | .unsupported _ left right | .incomparable left right => left = .nil ∨ right = .nil
  | .scope _ | .integerTooLarge _ | .unknownOperator _ | .notPlace | .strayCase
  | .arithmetic _ => False

/-- Two values that only share being comparable: their kinds differ, and so an order
of them blames both. -/
def Apart (operator : Operator) (leftType rightType : Ty) (left right : Value)
    (fault : RunFault) : Prop :=
  (operator = .less ∨ operator = .greater) ∧ leftType = .comparable ∧ rightType = .comparable ∧
    left.kind ≠ right.kind ∧ fault = .incomparable left.kind right.kind

/-- Two decimals whose result leaves the exponent range. -/
def Strained (operator : Operator) (left right : Value) (fault : RunFault) : Prop :=
  ∃ first second refusal, left = .decimal first ∧ right = .decimal second ∧
    Decimal.Escapes operator first second ∧ fault = .arithmetic refusal

/-- Whether an operator may meet the fault because of these operands. -/
def Blamed (operator : Operator) (leftType rightType : Ty) (left right : Value)
    (fault : RunFault) : Prop :=
  Apart operator leftType rightType left right fault ∨ Strained operator left right fault

variable {makers : List Ty} {value left right : Value}

/-- A value of the type of truth values is refused as one only if it is missing. -/
theorem requireBoolean_pardoned {context : String} {fault : RunFault}
    (typed : Typed makers .boolean value)
    (refused : requireBoolean context value = .error fault) : Pardoned fault := by
  cases typed with
  | nil =>
    cases refused
    rfl
  | boolean => cases refused

/-- The handle of a value of a list type is that of a list of such elements. -/
theorem requireList_made {name : String} {element : Ty} {handle : Nat}
    (typed : Typed makers (.list element) value) (listed : requireList name value = .ok handle) :
    makers[handle]? = some element := by
  cases typed with
  | nil => cases listed
  | list made =>
    cases listed
    exact made

/-- A value of a list type is refused as a list only if it is missing. -/
theorem requireList_pardoned {name : String} {element : Ty} {fault : RunFault}
    (typed : Typed makers (.list element) value)
    (refused : requireList name value = .error fault) : Pardoned fault := by
  cases typed with
  | nil =>
    cases refused
    rfl
  | list made => cases refused

/-- An index that passes is inside the list. -/
theorem requireIndex_lt {size index : Nat} (found : requireIndex value size = .ok index) :
    index < size := by
  unfold requireIndex at found
  split at found
  · split at found
    · next inside =>
      cases found
      simp only [Bool.and_eq_true, decide_eq_true_eq] at inside
      omega
    · cases found
  · cases found

/-- A value of the type of integers is refused as an index only if it is missing or outside. -/
theorem requireIndex_pardoned {size : Nat} {fault : RunFault} (typed : Typed makers .integer value)
    (refused : requireIndex value size = .error fault) : Pardoned fault := by
  cases typed with
  | nil =>
    cases refused
    rfl
  | integer =>
    unfold requireIndex at refused
    simp only at refused
    split at refused
    · cases refused
    · cases refused
      exact RunFault.naming_of trivial trivial

/-- A literal that has a type has a value of that type. -/
theorem literalValue_typed {literal : Literal} {type : Ty}
    (typed : Typing.literalType literal = .ok type) :
    ∃ value, literalValue literal = .ok value ∧ Typed makers type value := by
  cases literal with
  | integer number =>
    unfold Typing.literalType at typed
    simp only at typed
    split at typed
    · next fits =>
      cases typed
      exact ⟨.integer number, by simp [literalValue, fits], .integer⟩
    · cases typed
  | decimal number =>
    unfold Typing.literalType at typed
    simp only at typed
    split at typed
    · cases typed
      exact ⟨_, rfl, .decimal⟩
    · cases typed
  | nil =>
    cases typed
    exact ⟨_, rfl, .nil⟩
  | boolean truth =>
    cases typed
    exact ⟨_, rfl, .boolean⟩
  | character text =>
    cases typed
    exact ⟨_, rfl, .character⟩
  | string text =>
    cases typed
    exact ⟨_, rfl, .string⟩

/-! ## Operators -/

/-- What is shown of an operation: its value is of the type, and a fault is one that
may be met. -/
structure Computes (makers : List Ty) (type : Ty) (admits : RunFault → Prop)
    (outcome : Except RunFault Value) : Prop where
  value : ∀ value, outcome = .ok value → Typed makers type value
  fault : ∀ fault, outcome = .error fault → admits fault

/-- A value of the type is what is computed. -/
theorem computes_ok {type : Ty} {admits : RunFault → Prop} (typed : Typed makers type value) :
    Computes makers type admits (.ok value) := by
  constructor
  · rintro _ ⟨⟩
    exact typed
  · rintro _ ⟨⟩

/-- A fault that is admitted is what is computed. -/
theorem computes_error {type : Ty} {admits : RunFault → Prop} {fault : RunFault}
    (admitted : admits fault) : Computes makers type admits (.error fault) := by
  constructor
  · rintro _ ⟨⟩
  · rintro _ ⟨⟩
    exact admitted

/-- What is computed with fewer faults is computed with more of them admitted. -/
theorem Computes.imp {type : Ty} {strong admits : RunFault → Prop}
    {outcome : Except RunFault Value} (computes : Computes makers type strong outcome)
    (weaker : ∀ fault, strong fault → admits fault) : Computes makers type admits outcome :=
  ⟨computes.value, fun fault failed => weaker fault (computes.fault fault failed)⟩

/-- Arithmetic with nil blames it. -/
theorem arithmetic_nil {operator : Operator} {type : Ty} {onIntegers : Int → Int → Int}
    {onDecimals : Decimal → Decimal → Except Decimal.Refusal Decimal}
    (absent : left = .nil ∨ right = .nil) :
    Computes makers type Pardoned (arithmetic operator onIntegers onDecimals left right) := by
  rcases absent with rfl | rfl
  · exact computes_error (.inl rfl)
  · cases left with
    | nil => exact computes_error (.inl rfl)
    | _ => exact computes_error (.inr rfl)

/-- Arithmetic on two operands of one type of numbers. -/
theorem arithmetic_computes {operator : Operator} {type : Ty} {onIntegers : Int → Int → Int}
    {onDecimals : Decimal → Decimal → Except Decimal.Refusal Decimal}
    (number : type = .integer ∨ type = .decimal) (leftTyped : Typed makers type left)
    (rightTyped : Typed makers type right)
    (escapes : ∀ first second refusal, left = .decimal first → right = .decimal second →
      onDecimals first second = .error refusal → Decimal.Escapes operator first second) :
    Computes makers type (fun fault => Pardoned fault ∨ Strained operator left right fault)
      (arithmetic operator onIntegers onDecimals left right) := by
  by_cases absent : left = .nil ∨ right = .nil
  · exact (arithmetic_nil absent).imp fun _ => .inl
  · rcases number with rfl | rfl
    · cases leftTyped with
      | nil => simp at absent
      | integer =>
        cases rightTyped with
        | nil => simp at absent
        | integer => exact computes_ok .integer
    · cases leftTyped with
      | nil => simp at absent
      | @decimal first =>
        cases rightTyped with
        | nil => simp at absent
        | @decimal second =>
          simp only [arithmetic, decimalResult]
          cases outcome : onDecimals first second with
          | ok result => exact computes_ok .decimal
          | error refusal =>
            have beyond := escapes first second refusal rfl rfl outcome
            exact computes_error (.inr ⟨first, second, refusal, rfl, rfl, beyond, rfl⟩)

/-- A power of a number, with an integer as its exponent. -/
theorem power_computes {type : Ty} (number : type = .integer ∨ type = .decimal)
    (leftTyped : Typed makers type left) (rightTyped : Typed makers .integer right) :
    Computes makers type Pardoned (power left right) := by
  cases rightTyped with
  | nil => exact computes_error rfl
  | @integer exponent =>
    cases leftTyped with
    | nil => exact computes_error rfl
    | integer =>
      simp only [power]
      split
      · exact computes_error trivial
      · exact computes_ok .integer
    | @decimal base =>
      simp only [power, decimalPower]
      split
      · exact computes_error trivial
      · cases base.power exponent with
        | ok result => exact computes_ok .decimal
        | error refusal => exact computes_error (RunFault.naming_of trivial trivial)
    | _ => simp at number

/-- A value of a comparable type is nil, or has an order. -/
theorem Typed.ordered {type : Ty} (comparable : Ty.isAssignable .comparable type = true)
    (typed : Typed makers type value) (present : value ≠ .nil) :
    value.kind ∈ Ty.ordered ∧ (type = .comparable ∨ value.kind = type) := by
  cases typed with
  | nil => exact absurd rfl present
  | comparable ordered => exact ⟨ordered, .inl rfl⟩
  | integer => exact ⟨by simp [Value.kind, Ty.ordered], .inr rfl⟩
  | decimal => exact ⟨by simp [Value.kind, Ty.ordered], .inr rfl⟩
  | character => exact ⟨by simp [Value.kind, Ty.ordered], .inr rfl⟩
  | string => exact ⟨by simp [Value.kind, Ty.ordered], .inr rfl⟩
  | _ => simp [Ty.isAssignable, Ty.ordered] at comparable

/-- Values have an order when they are of one kind that the checker takes for ordered. -/
theorem isBelow?_isSome_iff : (left.isBelow? right).isSome = true ↔
    left.kind = right.kind ∧ Ty.isAssignable .comparable left.kind = true := by
  cases left <;> cases right <;>
    simp [Value.isBelow?, Value.kind, Ty.isAssignable, Ty.ordered]

/-- An order of two values of a comparable type is there, or it blames nil, or the
values only share being comparable. -/
theorem compare_computes {operator : Operator} {type : Ty} {below : Option Bool}
    (order : operator = .less ∨ operator = .greater)
    (comparable : Ty.isAssignable .comparable type = true) (leftTyped : Typed makers type left)
    (rightTyped : Typed makers type right)
    (asked : below = left.isBelow? right ∨ below = right.isBelow? left) :
    Computes makers .boolean
      (fun fault => Pardoned fault ∨ Apart operator type type left right fault)
      (compare left right below) := by
  cases answer : below with
  | some truth => exact computes_ok .boolean
  | none =>
    rw [answer] at asked
    apply computes_error
    by_cases leftNil : left = .nil
    · exact .inl (.inl (by rw [leftNil]; rfl))
    · by_cases rightNil : right = .nil
      · exact .inl (.inr (by rw [rightNil]; rfl))
      · obtain ⟨leftOrdered, leftKind⟩ := leftTyped.ordered comparable leftNil
        obtain ⟨rightOrdered, rightKind⟩ := rightTyped.ordered comparable rightNil
        have differ : left.kind ≠ right.kind := by
          intro same
          rcases asked with forwards | backwards
          · have there := isBelow?_isSome_iff.mpr ⟨same, by simp [Ty.isAssignable, leftOrdered]⟩
            simp [← forwards] at there
          · have there :=
              isBelow?_isSome_iff.mpr ⟨same.symm, by simp [Ty.isAssignable, rightOrdered]⟩
            simp [← backwards] at there
        have shared : type = .comparable := by
          rcases leftKind with shared | leftSame
          · exact shared
          · rcases rightKind with shared | rightSame
            · exact shared
            · exact absurd (leftSame.trans rightSame.symm) differ
        exact .inr ⟨order, shared, shared, differ, rfl⟩

/-- Two values that are joined give a text, unless an integer in them is too long for one. -/
theorem join_computes {store : Store} :
    Computes makers .string Pardoned (join store left right) := by
  unfold join
  cases left.text? store with
  | none => exact computes_error trivial
  | some first =>
    cases right.text? store with
    | none => exact computes_error trivial
    | some second => exact computes_ok .string

/-- A checked program may meet a value that cannot be written. -/
theorem written_pardoned {text : Option String} {fault : RunFault}
    (refused : written text = .error fault) : Pardoned fault := by
  obtain ⟨-, rfl⟩ := written_error.mp refused
  trivial

/-- A sum is a text as soon as one side is a text, and one of a text type that is no
text is nil. -/
theorem plus_computes {store : Store} {leftType rightType type : Ty}
    (typed : Typing.operatorType .plus leftType rightType = .ok type)
    (leftTyped : Typed makers leftType left) (rightTyped : Typed makers rightType right) :
    Computes makers type (fun fault => Pardoned fault ∨ Strained .plus left right fault)
      (if isText left || isText right then join store left right
        else arithmetic .plus (· + ·) Decimal.add left right) := by
  simp only [Typing.operatorType] at typed
  split at typed
  · next texts =>
    cases typed
    split
    · exact join_computes.imp fun _ => .inl
    · next none =>
      refine (arithmetic_nil ?_).imp fun _ => .inl
      simp only [Bool.or_eq_true, decide_eq_true_eq] at texts
      rcases texts with rfl | rfl
      · cases leftTyped with
        | nil => exact .inl rfl
        | string => simp [isText] at none
      · cases rightTyped with
        | nil => exact .inr rfl
        | string => simp [isText] at none
  · obtain ⟨rfl, rfl, number⟩ := Typing.arithmeticType_ok.mp typed
    split
    · next text =>
      simp only [Bool.or_eq_true] at text
      rcases number with rfl | rfl
      · cases leftTyped <;> cases rightTyped <;> simp [isText] at text
      · cases leftTyped <;> cases rightTyped <;> simp [isText] at text
    · exact arithmetic_computes number leftTyped rightTyped
        fun _ _ _ _ _ refused => Decimal.add_error refused

/-- A divisor that is no zero has a coefficient. -/
theorem isZeroNumber_decimal {number : Decimal} (nonzero : ¬isZeroNumber right = true)
    (same : right = .decimal number) : number.coefficient ≠ 0 := by
  subst same
  simpa [isZeroNumber, Decimal.isZero] using nonzero

/-- An operator that has a type for its operands gives a value of that type, or meets
a fault that may be met. -/
theorem apply_computes {store : Store} {text : String} {operator : Operator}
    {leftType rightType type : Ty} (parsed : Operator.ofText? text = some operator)
    (eager : operator ≠ .and ∧ operator ≠ .or)
    (typed : Typing.binaryType text leftType rightType = .ok type)
    (leftTyped : Typed makers leftType left) (rightTyped : Typed makers rightType right) :
    Computes makers type
      (fun fault => Pardoned fault ∨ Blamed operator leftType rightType left right fault)
      (apply store text left right) := by
  simp only [Typing.binaryType, parsed] at typed
  cases operator with
  | and => exact absurd rfl eager.1
  | or => exact absurd rfl eager.2
  | less =>
    obtain ⟨rfl, rfl, comparable⟩ := Typing.comparisonType_ok.mp typed
    simp only [apply, parsed]
    exact (compare_computes (.inl rfl) comparable leftTyped rightTyped (.inl rfl)).imp
      fun _ => .imp_right .inl
  | greater =>
    obtain ⟨rfl, rfl, comparable⟩ := Typing.comparisonType_ok.mp typed
    simp only [apply, parsed]
    exact (compare_computes (.inr rfl) comparable leftTyped rightTyped (.inr rfl)).imp
      fun _ => .imp_right .inl
  | equal =>
    obtain ⟨rfl, _, _⟩ := Typing.comparisonType_ok.mp typed
    simp only [apply, parsed]
    exact computes_ok .boolean
  | notEqual =>
    obtain ⟨rfl, _, _⟩ := Typing.comparisonType_ok.mp typed
    simp only [apply, parsed]
    exact computes_ok .boolean
  | plus =>
    simp only [apply, parsed]
    exact (plus_computes typed leftTyped rightTyped).imp fun _ => .imp_right .inr
  | minus =>
    obtain ⟨rfl, rfl, number⟩ := Typing.arithmeticType_ok.mp typed
    simp only [apply, parsed]
    exact (arithmetic_computes number leftTyped rightTyped
      fun _ _ _ _ _ refused => Decimal.subtract_error refused).imp fun _ => .imp_right .inr
  | times =>
    obtain ⟨rfl, rfl, number⟩ := Typing.arithmeticType_ok.mp typed
    simp only [apply, parsed]
    exact (arithmetic_computes number leftTyped rightTyped
      fun _ _ _ _ _ refused => Decimal.multiply_error refused).imp fun _ => .imp_right .inr
  | divide =>
    obtain ⟨rfl, rfl, number⟩ := Typing.arithmeticType_ok.mp typed
    simp only [apply, parsed]
    split
    · exact computes_error (.inl trivial)
    · next nonzero =>
      exact (arithmetic_computes number leftTyped rightTyped fun _ _ _ _ same refused =>
        Decimal.divide_error (isZeroNumber_decimal nonzero same) refused).imp
          fun _ => .imp_right .inr
  | power =>
    simp only [apply, parsed]
    simp only [Typing.operatorType] at typed
    split at typed
    · next numbers =>
      cases typed
      simp only [Bool.and_eq_true, Bool.or_eq_true, decide_eq_true_eq] at numbers
      exact (power_computes numbers.1 leftTyped (numbers.2 ▸ rightTyped)).imp fun _ => .inl
    · cases typed

end Chronicle

end Blockscript
