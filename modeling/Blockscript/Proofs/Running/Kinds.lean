import Blockscript.Proofs.Running.Operations
import Blockscript.Proofs.Values.Writing

/-!
# Two tables of operators

The checker has a table that gives the type of an operator from the types of its operands,
and a run has one that gives its value from their values. The second one looks at the kinds of
the values in an order of its own: a text joins with anything, a zero divisor is noticed
before the kinds are, an exponent is looked at before its base.

Still the tables agree. Where the first one has a type for the kinds of two values, the second
one has a value of this kind, or the operation is one that numbers do not always admit, or an
integer in it has too many digits to be written; and where the first one refuses the kinds, the
second one refuses the values.
-/

namespace Blockscript.Running

variable {store : Store} {left right value : Value} {type : Ty} {operator : Operator}
  {fault : RunFault}

/-- The operators that order values or compute with them. -/
def computing : List Operator :=
  [.less, .greater, .plus, .minus, .times, .divide, .power]

/-- What an operation may meet although the kinds of its operands are as they should be: a
divisor that is zero, a power that does not exist, a result beyond the exponent range, and an
integer that is to be joined to a text, or named for a power that fails, and has too many
digits to be written. -/
inductive Exceptional (store : Store) : Operator → Value → Value → RunFault → Prop where
  | divisionByZero {left right : Value} :
      isZeroNumber right = true → Exceptional store .divide left right .divisionByZero
  | negativeExponent {base exponent : Int} : exponent < 0 →
      Exceptional store .power (.integer base) (.integer exponent) .negativeExponent
  | powerOfZero {base : Decimal} {exponent : Int} : base.isZero = true → exponent < 0 →
      Exceptional store .power (.decimal base) (.integer exponent) .powerOfZero
  | powerFailed {base : Decimal} {exponent : Int} {refusal : Decimal.Refusal} :
      base.power exponent = .error refusal → digitCount exponent.natAbs ≤ digitLimit →
      Exceptional store .power (.decimal base) (.integer exponent)
        (.powerFailed base exponent refusal)
  | powerUnnamed {base : Decimal} {exponent : Int} {refusal : Decimal.Refusal} :
      base.power exponent = .error refusal → digitLimit < digitCount exponent.natAbs →
      Exceptional store .power (.decimal base) (.integer exponent) .unwritable
  | escapes {operator : Operator} {first second : Decimal} {refusal : Decimal.Refusal} :
      Decimal.Escapes operator first second →
      Exceptional store operator (.decimal first) (.decimal second) (.arithmetic refusal)
  | overlong {left right : Value} : isText left = true ∨ isText right = true →
      Overlong store store.depth left ∨ Overlong store store.depth right →
      Exceptional store .plus left right .unwritable

/-- The type that the kinds of two values have agrees with what becomes of the values. -/
structure Agrees (typed : Except TypeFault Ty) (admits : RunFault → Prop)
    (outcome : Except RunFault Value) : Prop where
  accepted : ∀ type, typed = .ok type →
    (∃ value, outcome = .ok value ∧ value.kind = type) ∨
      ∃ fault, outcome = .error fault ∧ admits fault
  refused : ∀ reason, typed = .error reason →
    ∃ fault, outcome = .error fault ∧ (Stop.fault fault).isError = true

section

variable {typed : Except TypeFault Ty} {admits : RunFault → Prop}

/-- A value agrees with the type that it is of. -/
theorem agrees_value (same : typed = .ok value.kind) : Agrees typed admits (.ok value) := by
  subst same
  constructor
  · rintro _ ⟨⟩
    exact .inl ⟨value, rfl, rfl⟩
  · rintro _ ⟨⟩

/-- A fault that the type admits agrees with it. -/
theorem agrees_admitted (same : typed = .ok type) (admitted : admits fault) :
    Agrees typed admits (.error fault) := by
  subst same
  constructor
  · intro _ _
    exact .inr ⟨fault, rfl, admitted⟩
  · rintro _ ⟨⟩

/-- An error agrees with there being no type. -/
theorem agrees_refused (error : (Stop.fault fault).isError = true)
    (untyped : ∀ type, typed ≠ .ok type) : Agrees typed admits (.error fault) := by
  constructor
  · intro type same
    exact absurd same (untyped type)
  · intro _ _
    exact ⟨fault, rfl, error⟩

/-- A fault that is an error of the program and is admitted fits any typing. -/
theorem agrees_either (error : (Stop.fault fault).isError = true) (admitted : admits fault) :
    Agrees typed admits (.error fault) :=
  ⟨fun _ _ => .inr ⟨fault, rfl, admitted⟩, fun _ _ => ⟨fault, rfl, error⟩⟩

end

/-! ## Kinds of values -/

/-- The texts are the values of the kind of strings. -/
theorem isText_iff : isText value = true ↔ value.kind = .string := by
  cases value <;> simp [isText, Value.kind]

/-! ## Families of operators -/

/-- Order is a matter of both values, whichever of them stands first. -/
theorem compare_agrees {below : Option Bool} {admits : RunFault → Prop}
    (asked : below.isSome = (left.isBelow? right).isSome) :
    Agrees (Typing.comparisonType left.kind right.kind) admits (compare left right below) := by
  cases answer : below with
  | some truth =>
    rw [answer, Option.isSome_some] at asked
    obtain ⟨same, ordered⟩ := Chronicle.isBelow?_isSome_iff.mp asked.symm
    exact agrees_value (Typing.comparisonType_ok.mpr ⟨rfl, same, ordered⟩)
  | none =>
    rw [answer, Option.isSome_none] at asked
    refine agrees_refused rfl fun type typed => ?_
    obtain ⟨_, same, ordered⟩ := Typing.comparisonType_ok.mp typed
    rw [Chronicle.isBelow?_isSome_iff.mpr ⟨same, ordered⟩] at asked
    cases asked

/-- Whether two values are ordered does not depend on which comes first. -/
theorem isBelow?_isSome_comm : (right.isBelow? left).isSome = (left.isBelow? right).isSome := by
  cases left <;> cases right <;> rfl

/-- Arithmetic takes two numbers of one kind, and gives one of that kind. -/
theorem arithmetic_agrees {onIntegers : Int → Int → Int}
    {onDecimals : Decimal → Decimal → Except Decimal.Refusal Decimal}
    (escapes : ∀ first second refusal, left = .decimal first → right = .decimal second →
      onDecimals first second = .error refusal → Decimal.Escapes operator first second) :
    Agrees (Typing.arithmeticType operator left.kind right.kind)
      (Exceptional store operator left right)
      (arithmetic operator onIntegers onDecimals left right) := by
  unfold arithmetic
  split
  · exact agrees_value (Typing.arithmeticType_ok.mpr ⟨rfl, rfl, .inl rfl⟩)
  · next first second =>
    have typed : Typing.arithmeticType operator (Value.decimal first).kind
        (Value.decimal second).kind = .ok .decimal :=
      Typing.arithmeticType_ok.mpr ⟨rfl, rfl, .inr rfl⟩
    cases outcome : onDecimals first second with
    | ok result => exact agrees_value typed
    | error refusal =>
      exact agrees_admitted typed (.escapes (escapes first second refusal rfl rfl outcome))
  · next noIntegers noDecimals =>
    refine agrees_refused rfl fun type typed => ?_
    obtain ⟨leftKind, rightKind, number⟩ := Typing.arithmeticType_ok.mp typed
    rcases number with rfl | rfl
    · obtain ⟨first, rfl⟩ := Value.exists_integer leftKind
      obtain ⟨second, rfl⟩ := Value.exists_integer rightKind
      exact noIntegers first second rfl rfl
    · obtain ⟨first, rfl⟩ := Value.exists_decimal leftKind
      obtain ⟨second, rfl⟩ := Value.exists_decimal rightKind
      exact noDecimals first second rfl rfl

/-- A text joins with every value that has one. -/
theorem join_agrees (text : isText left = true ∨ isText right = true) :
    Agrees (.ok .string) (Exceptional store .plus left right) (join store left right) := by
  unfold join
  cases first : left.text? store with
  | none => exact agrees_admitted rfl (.overlong text (.inl (text?_eq_none_iff.mp first)))
  | some first =>
    cases second : right.text? store with
    | none => exact agrees_admitted rfl (.overlong text (.inr (text?_eq_none_iff.mp second)))
    | some second => exact agrees_value rfl

/-- A sum is a text as soon as one side is one. -/
theorem plus_agrees :
    Agrees (Typing.operatorType .plus left.kind right.kind) (Exceptional store .plus left right)
      (if isText left || isText right then join store left right
        else arithmetic .plus (· + ·) Decimal.add left right) := by
  simp only [Typing.operatorType, Bool.or_eq_true, isText_iff, decide_eq_true_eq]
  split
  · next text => exact join_agrees (by simpa only [isText_iff] using text)
  · exact arithmetic_agrees fun _ _ _ _ _ refused => Decimal.add_error refused

/-- A zero divisor is an error whatever is divided by it. -/
theorem divide_agrees :
    Agrees (Typing.operatorType .divide left.kind right.kind) (Exceptional store .divide left right)
      (if isZeroNumber right then .error .divisionByZero
        else arithmetic .divide integerQuotient Decimal.divide left right) := by
  simp only [Typing.operatorType]
  split
  · next zero => exact agrees_either rfl (.divisionByZero zero)
  · next nonzero =>
    exact arithmetic_agrees fun _ _ _ _ same refused =>
      Decimal.divide_error (Chronicle.isZeroNumber_decimal nonzero same) refused

/-- A power has a type when its base is a number and its exponent an integer. -/
theorem powerType_ok {base exponent : Ty} :
    Typing.operatorType .power base exponent = .ok type ↔
      type = base ∧ (base = .integer ∨ base = .decimal) ∧ exponent = .integer := by
  simp only [Typing.operatorType, Bool.and_eq_true, Bool.or_eq_true, decide_eq_true_eq]
  split
  · next numbers =>
    constructor
    · rintro ⟨⟩
      exact ⟨rfl, numbers⟩
    · rintro ⟨rfl, _⟩
      rfl
  · next other =>
    constructor
    · rintro ⟨⟩
    · rintro ⟨_, numbers⟩
      exact absurd numbers other

/-- A power that fails is told with its exponent, if that can be written. -/
theorem power_refused {base : Decimal} {exponent : Int} {refusal : Decimal.Refusal}
    (outcome : base.power exponent = .error refusal) :
    Exceptional store .power (.decimal base) (.integer exponent)
      (.naming exponent (.powerFailed base exponent refusal)) := by
  unfold RunFault.naming integerText?
  by_cases short : digitCount exponent.natAbs ≤ digitLimit
  · rw [if_pos short]
    exact .powerFailed outcome short
  · rw [if_neg short]
    exact .powerUnnamed outcome (Nat.not_le.mp short)

/-- A power takes a number and an integer, and gives a number of the kind of its base. -/
theorem power_agrees :
    Agrees (Typing.operatorType .power left.kind right.kind) (Exceptional store .power left right)
      (power left right) := by
  unfold power
  split
  · next exponent =>
    split
    · next base =>
      have typed := powerType_ok.mpr ⟨rfl, .inr rfl, rfl⟩
      unfold decimalPower
      split
      · next zero =>
        simp only [Bool.and_eq_true, decide_eq_true_eq] at zero
        exact agrees_admitted typed (.powerOfZero zero.2 zero.1)
      · cases outcome : base.power exponent with
        | ok result => exact agrees_value typed
        | error refusal => exact agrees_admitted typed (power_refused outcome)
    · next base =>
      have typed := powerType_ok.mpr ⟨rfl, .inl rfl, rfl⟩
      split
      · next negative => exact agrees_admitted typed (.negativeExponent negative)
      · exact agrees_value typed
    · next noDecimal noInteger =>
      refine agrees_refused rfl fun type typed => ?_
      obtain ⟨_, integer | decimal, _⟩ := powerType_ok.mp typed
      · obtain ⟨number, rfl⟩ := Value.exists_integer integer
        exact noInteger number rfl
      · obtain ⟨number, rfl⟩ := Value.exists_decimal decimal
        exact noDecimal number rfl
  · next noInteger =>
    refine agrees_refused rfl fun type typed => ?_
    obtain ⟨_, _, integer⟩ := powerType_ok.mp typed
    obtain ⟨number, rfl⟩ := Value.exists_integer integer
    exact noInteger number rfl

/-- The table of the checker and the table of a run agree on every operator that orders values
or computes with them, for all values. When the kinds of two values have a type, the operator
gives a value of this kind, or it meets a zero divisor, a negative exponent of an integer, a
power of decimals that fails, a result beyond the exponent range, or an integer that is too long
to be written. When the kinds have none, the operator ends with an error. -/
theorem operator_tables_agree (among : operator ∈ computing) (store : Store)
    (left right : Value) :
    Agrees (Typing.binaryType operator.text left.kind right.kind)
      (Exceptional store operator left right) (apply store operator.text left right) := by
  simp only [Typing.binaryType, apply, Operator.ofText?_text]
  simp only [computing, List.mem_cons, List.not_mem_nil, or_false] at among
  rcases among with rfl | rfl | rfl | rfl | rfl | rfl | rfl
  · exact compare_agrees rfl
  · exact compare_agrees isBelow?_isSome_comm
  · exact plus_agrees
  · exact arithmetic_agrees fun _ _ _ _ _ refused => Decimal.subtract_error refused
  · exact arithmetic_agrees fun _ _ _ _ _ refused => Decimal.multiply_error refused
  · exact divide_agrees
  · exact power_agrees

/-- A list has no quotient, and the divisor is blamed first. -/
theorem list_by_zero_agrees :
    Operator.divide ∈ computing ∧
      apply {} Operator.divide.text (.list 0) (.integer 0) = .error .divisionByZero ∧
      Agrees (Typing.binaryType Operator.divide.text (Value.list 0).kind (Value.integer 0).kind)
        (Exceptional {} .divide (.list 0) (.integer 0))
        (apply {} Operator.divide.text (.list 0) (.integer 0)) :=
  ⟨by decide, rfl, operator_tables_agree (by decide) {} (.list 0) (.integer 0)⟩

/-- A text and an integer of five thousand and one digits have a type, but no value. -/
theorem long_integer_not_joined :
    Typing.binaryType Operator.plus.text (Value.string "").kind (Value.integer (tenTo 5000)).kind =
        .ok .string ∧
      apply {} Operator.plus.text (.string "") (.integer (tenTo 5000)) = .error .unwritable := by
  decide +kernel

end Blockscript.Running
