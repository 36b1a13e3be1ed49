import Blockscript.Proofs.Typing.Derivation
import Blockscript.Proofs.Typing.Naming
import Blockscript.Proofs.Typing.Soundness

/-!
# The checker decides the rules

Each lemma says of one part of the checker when it passes and with what: exactly when the
rules derive it, and the state it leaves is the one before with the declared variables in
the scopes. So both directions are shown at once, part by part along the source.

Functions are those that declare their result. Returns are then checked against a type that
does not change.
-/

namespace Blockscript

namespace Typing

variable {scopes : Scopes} {before after : Checker}

/-- A name is resolved to the type that it is the text of. -/
theorem resolve_iff {name : String} {type : Ty} : resolve name = .ok type ↔ name = type.text := by
  rw [← Ty.ofText_iff]
  unfold resolve
  cases Ty.ofText name with
  | ok other => simp
  | error part => simp

/-! ## Rules without a scope -/

/-- The checker lets a type be assigned when the rules do. -/
theorem isAssignable_iff {target source : Ty} :
    target.isAssignable source = true ↔ Assignable target source := by
  constructor
  · intro assignable
    simp only [Ty.isAssignable, Ty.ordered, Bool.or_eq_true, Bool.and_eq_true,
      decide_eq_true_eq, List.contains_iff_mem, List.mem_cons, List.not_mem_nil, or_false]
      at assignable
    rcases assignable with (rfl | rfl) | ⟨rfl, rfl | rfl | rfl | rfl⟩
    · exact .same target
    · exact .any source
    · exact .integer
    · exact .decimal
    · exact .character
    · exact .string
  · intro assignable
    cases assignable with
    | same => exact isAssignable_refl target
    | any => simp [Ty.isAssignable]
    | _ => decide

/-- The checker asks for what the rules ask for. -/
theorem requireAssignable_iff {target source : Ty} {done : Unit} :
    requireAssignable target source = .ok done ↔ Assignable target source :=
  requireAssignable_ok.trans isAssignable_iff

/-- An integer fits when it has 32 bits. -/
theorem fitsInteger_iff {number : Int} :
    Literal.fitsInteger number = true ↔ -2 ^ 31 ≤ number ∧ number < 2 ^ 31 := by
  unfold Literal.fitsInteger Literal.leastInteger Literal.greatestInteger
  simp only [Bool.and_eq_true, decide_eq_true_eq]
  constructor
  · rintro ⟨low, high⟩
    exact ⟨by omega, by omega⟩
  · rintro ⟨low, high⟩
    exact ⟨by omega, by omega⟩

/-- A literal has the type that the rules derive. -/
theorem literalType_iff {literal : Literal} {type : Ty} :
    literalType literal = .ok type ↔ LiteralDerives literal type := by
  constructor
  · intro typed
    cases literal with
    | nil =>
      cases typed
      exact .nil
    | boolean truth =>
      cases typed
      exact .boolean truth
    | integer number =>
      rw [literalType] at typed
      split at typed
      · next fits =>
        cases typed
        have range := fitsInteger_iff.mp fits
        exact .integer range.1 range.2
      · cases typed
    | decimal number =>
      rw [literalType] at typed
      split at typed
      · next fits =>
        cases typed
        exact .decimal (((fitsDecimal_iff number).mp fits).trans_eq cast_doubleLimit)
      · cases typed
    | character text =>
      cases typed
      exact .character text
    | string text =>
      cases typed
      exact .string text
  · intro derived
    cases derived with
    | @integer number low high =>
      rw [literalType, if_pos (fitsInteger_iff.mpr ⟨low, high⟩)]
    | @decimal number small =>
      have below : number.magnitude < doubleLimit := small.trans_eq cast_doubleLimit.symm
      rw [literalType, if_pos ((fitsDecimal_iff number).mpr below)]
    | _ => rfl

/-- An operator is the one whose text is read. -/
theorem operatorOf_iff {text : String} {operator : Operator} :
    Operator.ofText? text = some operator ↔ text = operator.text := by
  constructor
  · intro found
    have written : operator.text = text := by
      simpa using List.find?_some found
    exact written.symm
  · rintro rfl
    exact Operator.ofText?_text operator

/-- Every operator has the types that its class gives it. -/
theorem operatorType_sound {operator : Operator} {left right type : Ty}
    (typed : operatorType operator left right = .ok type) :
    OperatorDerives operator.text left right type := by
  have logical (member : operator.text ∈ ["&&", "||"])
      (chosen : (if left = .boolean && right = .boolean then .ok .boolean
        else .error (.notBoolean operator left right) : Except TypeFault Ty) = .ok type) :
      OperatorDerives operator.text left right type := by
    split at chosen
    · next booleans =>
      simp only [Bool.and_eq_true, decide_eq_true_eq] at booleans
      obtain ⟨rfl, rfl⟩ := booleans
      cases chosen
      exact .logical member
    · cases chosen
  have comparison (member : operator.text ∈ ["<", ">", "==", "!="])
      (typed : comparisonType left right = .ok type) :
      OperatorDerives operator.text left right type := by
    obtain ⟨rfl, rfl, ordered⟩ := comparisonType_ok.mp typed
    exact .comparison member (isAssignable_iff.mp ordered)
  have arithmetic (member : operator.text ∈ ["+", "-", "*", "/"])
      (typed : arithmeticType operator left right = .ok type) :
      OperatorDerives operator.text left right type := by
    obtain ⟨rfl, rfl, number⟩ := arithmeticType_ok.mp typed
    exact .arithmetic member (by simpa using number)
  cases operator with
  | and => exact logical (by decide) typed
  | or => exact logical (by decide) typed
  | less => exact comparison (by decide) typed
  | greater => exact comparison (by decide) typed
  | equal => exact comparison (by decide) typed
  | notEqual => exact comparison (by decide) typed
  | plus =>
    simp only [operatorType] at typed
    split at typed
    · next texts =>
      cases typed
      simp only [Bool.or_eq_true, decide_eq_true_eq] at texts
      rcases texts with rfl | rfl
      · exact .joinLeft right
      · exact .joinRight left
    · exact arithmetic (by decide) typed
  | minus => exact arithmetic (by decide) typed
  | times => exact arithmetic (by decide) typed
  | divide => exact arithmetic (by decide) typed
  | power =>
    simp only [operatorType] at typed
    split at typed
    · next numbers =>
      cases typed
      simp only [Bool.and_eq_true, Bool.or_eq_true, decide_eq_true_eq] at numbers
      obtain ⟨base, rfl⟩ := numbers
      exact .power (by simpa using base)
    · cases typed

/-- What the class of an operator gives it is its type. -/
theorem operatorType_complete {operator : Operator} {left right type : Ty}
    (derived : OperatorDerives operator.text left right type) :
    operatorType operator left right = .ok type := by
  generalize written : operator.text = text at derived
  cases derived with
  | logical member =>
    cases operator <;> simp [← written, Operator.text] at member <;> rfl
  | comparison member ordered =>
    have typed : comparisonType left left = .ok .boolean :=
      comparisonType_ok.mpr ⟨rfl, rfl, isAssignable_iff.mpr ordered⟩
    cases operator <;> simp [← written, Operator.text] at member <;> exact typed
  | joinLeft =>
    cases operator <;> simp [Operator.text] at written
    rfl
  | joinRight =>
    cases operator <;> simp [Operator.text] at written
    simp [operatorType]
  | arithmetic member number =>
    have typed {operator : Operator} : arithmeticType operator left left = .ok left :=
      arithmeticType_ok.mpr ⟨rfl, rfl, by simpa using number⟩
    have other : left ≠ .string := by
      rintro rfl
      simp at number
    cases operator <;> simp [← written, Operator.text] at member <;>
      simp [operatorType, typed, other]
  | power number =>
    have base : left = .integer ∨ left = .decimal := by
      simpa using number
    cases operator <;> simp [Operator.text] at written
    simp [operatorType, base]

/-- An operation has the type that the rules derive. -/
theorem binaryType_iff {text : String} {left right type : Ty} :
    binaryType text left right = .ok type ↔ OperatorDerives text left right type := by
  constructor
  · intro typed
    unfold binaryType at typed
    split at typed
    · next operator found =>
      rw [operatorOf_iff.mp found]
      exact operatorType_sound typed
    · cases typed
  · intro derived
    obtain ⟨operator, rfl⟩ : ∃ operator : Operator, text = operator.text := by
      cases derived with
      | logical member =>
        simp only [List.mem_cons, List.not_mem_nil, or_false] at member
        rcases member with rfl | rfl
        · exact ⟨.and, rfl⟩
        · exact ⟨.or, rfl⟩
      | comparison member =>
        simp only [List.mem_cons, List.not_mem_nil, or_false] at member
        rcases member with rfl | rfl | rfl | rfl
        · exact ⟨.less, rfl⟩
        · exact ⟨.greater, rfl⟩
        · exact ⟨.equal, rfl⟩
        · exact ⟨.notEqual, rfl⟩
      | joinLeft => exact ⟨.plus, rfl⟩
      | joinRight => exact ⟨.plus, rfl⟩
      | arithmetic member =>
        simp only [List.mem_cons, List.not_mem_nil, or_false] at member
        rcases member with rfl | rfl | rfl | rfl
        · exact ⟨.plus, rfl⟩
        · exact ⟨.minus, rfl⟩
        · exact ⟨.times, rfl⟩
        · exact ⟨.divide, rfl⟩
      | power => exact ⟨.power, rfl⟩
    unfold binaryType
    rw [Operator.ofText?_text]
    exact operatorType_complete derived

/-! ## Expressions -/

mutual

/-- An expression that passes is derived, and changes no state. -/
theorem checkExpr_derives : ∀ (source : Expr .bare) {before after : Checker}
    {tree : Expr .checked}, before.environment = scopes.environment →
    (checkExpr source).Passes before tree after →
      after = before ∧ ExprDerives scopes source tree
  | .literal _ literal, before, after, tree, same, passes => by
    simp only [checkExpr, bind_passes, rule_passes, pure_passes, literalType_iff] at passes
    obtain ⟨type, _, ⟨derived, rfl⟩, rfl, rfl⟩ := passes
    exact ⟨rfl, .literal derived⟩
  | .group _ (.binary _ operator left right), before, after, tree, same, passes => by
    rw [checkExpr, if_pos (show Expr.isBinary _ = true from rfl)] at passes
    simp only [bind_passes, pure_passes] at passes
    obtain ⟨_, _, inside, rfl, rfl⟩ := passes
    obtain ⟨rfl, derived⟩ := checkExpr_derives (.binary () operator left right) same inside
    exact ⟨rfl, .group derived⟩
  | .binary _ operator left right, before, after, tree, same, passes => by
    simp only [checkExpr, bind_passes, rule_passes, pure_passes, binaryType_iff] at passes
    obtain ⟨_, _, first, _, _, second, type, _, ⟨typed, rfl⟩, rfl, rfl⟩ := passes
    obtain ⟨rfl, leftDerived⟩ := checkExpr_derives left same first
    obtain ⟨rfl, rightDerived⟩ := checkExpr_derives right same second
    exact ⟨rfl, .binary leftDerived rightDerived typed⟩
  | .access _ _ name, before, after, tree, same, passes => by
    simp only [checkExpr, bind_passes, lookup_passes, pure_passes, same] at passes
    obtain ⟨⟨place, entry⟩, _, ⟨found, rfl⟩, rfl, rfl⟩ := passes
    obtain ⟨binding, bound, rfl⟩ := Scopes.lookupVariable_environment.mp ⟨place, found⟩
    exact ⟨rfl, .access bound⟩
  | .element _ _ name offset, before, after, tree, same, passes => by
    simp only [checkExpr, bind_passes, lookup_passes, ite_passes, throw_passes, false_and,
      exists_false, and_false, false_or, ne_eq, not_not] at passes
    obtain ⟨⟨place, entry⟩, _, ⟨found, rfl⟩, checked, _, inside, integer, passes⟩ := passes
    rw [same] at found
    obtain ⟨binding, bound, rfl⟩ := Scopes.lookupVariable_environment.mp ⟨place, found⟩
    obtain ⟨rfl, derived⟩ := checkExpr_derives offset same inside
    cases list : binding.entry.type with
    | list element =>
      simp only [list, Ty.element?, pure_passes] at passes
      obtain ⟨rfl, rfl⟩ := passes
      exact ⟨rfl, .element bound list derived integer⟩
    | _ => simp [list, Ty.element?] at passes
  | .call _ _ name arguments, before, after, tree, same, passes => by
    simp only [checkExpr, bind_passes, lookup_passes] at passes
    obtain ⟨routine, _, ⟨found, rfl⟩, trees, _, inside, passes⟩ := passes
    rw [same] at found
    have known := Scopes.lookupFunction_environment.mp found
    obtain ⟨rfl, derived⟩ := checkArguments_derives routine.parameters arguments
      (routine?_found known).2 same inside
    cases result : routine.result with
    | none => simp [result] at passes
    | some type =>
      simp only [result, pure_passes] at passes
      obtain ⟨rfl, rfl⟩ := passes
      exact ⟨rfl, .call known result derived⟩
  | .list _ (first :: rest), before, after, tree, same, passes => by
    simp only [checkExpr, bind_passes, pure_passes] at passes
    obtain ⟨_, _, earlier, _, _, later, rfl, rfl⟩ := passes
    obtain ⟨rfl, derived⟩ := checkExpr_derives first same earlier
    obtain ⟨rfl, others⟩ := checkElements_derives _ rest same later
    exact ⟨rfl, .list derived others⟩
  | .list _ [], _, _, _, _, passes
  | .group _ (.literal _ _), _, _, _, _, passes
  | .group _ (.group _ _), _, _, _, _, passes
  | .group _ (.access _ _ _), _, _, _, _, passes
  | .group _ (.element _ _ _ _), _, _, _, _, passes
  | .group _ (.call _ _ _ _), _, _, _, _, passes
  | .group _ (.list _ _), _, _, _, _, passes => by
    simp [checkExpr, Expr.isBinary] at passes

/-- Arguments that pass are stored as the parameters ask. -/
theorem checkArguments_derives : ∀ (parameters : List Ty) (sources : List (Expr .bare)),
    parameters.length = sources.length →
    ∀ {before after : Checker} {trees : List (Expr .checked)},
      before.environment = scopes.environment →
      (checkArguments parameters sources).Passes before trees after →
        after = before ∧ StoredDerives scopes parameters sources trees
  | [], [], _, before, after, trees, _, passes => by
    simp only [checkArguments, pure_passes] at passes
    obtain ⟨rfl, rfl⟩ := passes
    exact ⟨rfl, .nil⟩
  | parameter :: parameters, argument :: arguments, lengths, before, after, trees, same,
      passes => by
    simp only [checkArguments, bind_passes, rule_passes, pure_passes, requireAssignable_iff]
      at passes
    obtain ⟨tree, _, earlier, _, _, ⟨assignable, rfl⟩, others, _, later, rfl, rfl⟩ := passes
    obtain ⟨rfl, derived⟩ := checkExpr_derives argument same earlier
    obtain ⟨rfl, further⟩ :=
      checkArguments_derives parameters arguments (Nat.succ.inj lengths) same later
    exact ⟨rfl, .cons derived assignable further⟩

/-- Elements that pass are stored under the type of the elements. -/
theorem checkElements_derives (element : Ty) : ∀ (sources : List (Expr .bare))
    {before after : Checker} {trees : List (Expr .checked)},
      before.environment = scopes.environment →
      (checkElements element sources).Passes before trees after →
        after = before ∧
          StoredDerives scopes (List.replicate sources.length element) sources trees
  | [], before, after, trees, _, passes => by
    simp only [checkElements, pure_passes] at passes
    obtain ⟨rfl, rfl⟩ := passes
    exact ⟨rfl, .nil⟩
  | first :: rest, before, after, trees, same, passes => by
    simp only [checkElements, bind_passes, rule_passes, pure_passes, requireAssignable_iff]
      at passes
    obtain ⟨tree, _, earlier, _, _, ⟨assignable, rfl⟩, others, _, later, rfl, rfl⟩ := passes
    obtain ⟨rfl, derived⟩ := checkExpr_derives first same earlier
    obtain ⟨rfl, further⟩ := checkElements_derives element rest same later
    exact ⟨rfl, .cons derived assignable further⟩

end

mutual

/-- An expression that is derived passes. -/
theorem expr_passes : ∀ {source : Expr .bare} {tree : Expr .checked},
    ExprDerives scopes source tree → ∀ {before : Checker},
      before.environment = scopes.environment → (checkExpr source).Passes before tree before
  | _, _, .literal derived, before, same => by
    simp only [checkExpr, bind_passes, rule_passes, pure_passes, literalType_iff]
    exact ⟨_, _, ⟨derived, rfl⟩, rfl, rfl⟩
  | _, _, .group derived, before, same => by
    rw [checkExpr, if_pos (show Expr.isBinary _ = true from rfl)]
    simp only [bind_passes, pure_passes]
    exact ⟨_, _, expr_passes derived same, rfl, rfl⟩
  | _, _, .binary left right typed, before, same => by
    simp only [checkExpr, bind_passes, rule_passes, pure_passes, binaryType_iff]
    exact ⟨_, _, expr_passes left same, _, _, expr_passes right same, _, _,
      ⟨typed, rfl⟩, rfl, rfl⟩
  | _, _, .access bound, before, same => by
    obtain ⟨place, found⟩ := Scopes.lookupVariable_environment.mpr ⟨_, bound, rfl⟩
    simp only [checkExpr, bind_passes, lookup_passes, pure_passes, same]
    exact ⟨_, _, ⟨found, rfl⟩, rfl, rfl⟩
  | _, _, .element bound list derived integer, before, same => by
    obtain ⟨place, found⟩ := Scopes.lookupVariable_environment.mpr ⟨_, bound, rfl⟩
    simp only [checkExpr, bind_passes, lookup_passes, ite_passes, throw_passes, false_and,
      exists_false, and_false, false_or, ne_eq, not_not, same]
    refine ⟨_, _, ⟨found, rfl⟩, _, _, expr_passes derived same, integer, ?_⟩
    simp only [list, Ty.element?, pure_passes, and_self]
  | _, _, .call known result derived, before, same => by
    have found := Scopes.lookupFunction_environment.mpr known
    simp only [checkExpr, bind_passes, lookup_passes, same]
    refine ⟨_, _, ⟨found, rfl⟩, _, _, arguments_pass derived same, ?_⟩
    simp only [result, pure_passes, and_self]
  | _, _, .list derived others, before, same => by
    simp only [checkExpr, bind_passes, pure_passes]
    exact ⟨_, _, expr_passes derived same, _, _, elements_pass others rfl same,
      rfl, rfl⟩

/-- Arguments that are derived pass. -/
theorem arguments_pass : ∀ {targets : List Ty} {sources : List (Expr .bare)}
    {trees : List (Expr .checked)}, StoredDerives scopes targets sources trees →
    ∀ {before : Checker}, before.environment = scopes.environment →
      (checkArguments targets sources).Passes before trees before
  | _, _, _, .nil, before, same => by
    simp only [checkArguments, pure_passes, and_self]
  | _, _, _, .cons derived assignable further, before, same => by
    simp only [checkArguments, bind_passes, rule_passes, pure_passes, requireAssignable_iff]
    exact ⟨_, _, expr_passes derived same, (), _, ⟨assignable, rfl⟩, _, _,
      arguments_pass further same, rfl, rfl⟩

/-- Elements that are derived pass. -/
theorem elements_pass : ∀ {targets : List Ty} {sources : List (Expr .bare)}
    {trees : List (Expr .checked)}, StoredDerives scopes targets sources trees →
    ∀ {element : Ty}, targets = List.replicate sources.length element →
    ∀ {before : Checker}, before.environment = scopes.environment →
      (checkElements element sources).Passes before trees before
  | _, _, _, .nil, element, _, before, same => by
    simp only [checkElements, pure_passes, and_self]
  | _, _, _, .cons derived assignable further, element, alike, before, same => by
    rw [List.length_cons, List.replicate_succ] at alike
    obtain ⟨rfl, others⟩ := List.cons.inj alike
    simp only [checkElements, bind_passes, rule_passes, pure_passes, requireAssignable_iff]
    exact ⟨_, _, expr_passes derived same, (), _, ⟨assignable, rfl⟩, _, _,
      elements_pass further others same, rfl, rfl⟩

end

/-- An expression passes exactly with what it is derived to become. -/
theorem checkExpr_iff {source : Expr .bare} {tree : Expr .checked}
    (same : before.environment = scopes.environment) :
    (checkExpr source).Passes before tree after ↔
      after = before ∧ ExprDerives scopes source tree := by
  constructor
  · exact checkExpr_derives source same
  · rintro ⟨rfl, derived⟩
    exact expr_passes derived same

/-! ## Values of bindings -/

/-- A value that passes has its type derived for the target. -/
theorem checkValue_derives {target : Ty} {source : Expr .bare} {tree : Expr .checked}
    (same : before.environment = scopes.environment)
    (passes : (checkValue target source).Passes before tree after)
    (assignable : Assignable target tree.type) :
    after = before ∧ ValueDerives scopes target source tree := by
  unfold checkValue at passes
  split at passes
  · split at passes
    · simp only [bind_passes, pure_passes] at passes
      obtain ⟨_, _, inside, rfl, rfl⟩ := passes
      obtain ⟨rfl, derived⟩ := checkElements_derives _ _ same inside
      exact ⟨rfl, .contextual derived⟩
    · obtain ⟨rfl, derived⟩ := checkExpr_derives _ same passes
      exact ⟨rfl, .plain derived assignable⟩
  · obtain ⟨rfl, derived⟩ := checkExpr_derives _ same passes
    exact ⟨rfl, .plain derived assignable⟩

/-- A list literal that is stored in a list and takes its type from its first element has
elements of that type, so it does not matter where the type is taken from. -/
theorem list_contextual {element : Ty} {sources : List (Expr .bare)} {tree : Expr .checked}
    (derived : ExprDerives scopes (.list () sources) tree)
    (assignable : Assignable (.list element) tree.type) :
    ∃ trees, tree = .list (.list element) trees ∧
      StoredDerives scopes (List.replicate sources.length element) sources trees := by
  cases derived with
  | @list first rest firstTree trees firstDerived others =>
    cases assignable with
    | same => exact ⟨_, rfl, .cons firstDerived (.same firstTree.type) others⟩

/-- A value whose type is derived for the target passes. -/
theorem value_passes {target : Ty} {source : Expr .bare} {tree : Expr .checked}
    (derived : ValueDerives scopes target source tree)
    (same : before.environment = scopes.environment) :
    (checkValue target source).Passes before tree before ∧ Assignable target tree.type := by
  cases derived with
  | plain plain assignable =>
    refine ⟨?_, assignable⟩
    unfold checkValue
    split
    · split
      · obtain ⟨trees, rfl, stored⟩ := list_contextual plain assignable
        simp only [bind_passes, pure_passes]
        exact ⟨_, _, elements_pass stored rfl same, rfl, rfl⟩
      · exact expr_passes plain same
    · exact expr_passes plain same
  | contextual stored =>
    refine ⟨?_, .same _⟩
    simp only [checkValue, bind_passes, pure_passes]
    exact ⟨_, _, elements_pass stored rfl same, rfl, rfl⟩

/-- A binding passes exactly with the type and the value that are derived for it. -/
theorem checkBinding_iff {name : String} {typeName : Option String}
    {source : Option (Expr .bare)} {type : Ty} {value : Option (Expr .checked)}
    (same : before.environment = scopes.environment) :
    (checkBinding name typeName source).Passes before (type, value) after ↔
      after = before ∧ BindingDerives scopes typeName source type value := by
  constructor
  · intro passes
    unfold checkBinding at passes
    split at passes
    · exact (throw_passes.mp passes).elim
    · simp only [bind_passes, pure_passes, Prod.mk.injEq] at passes
      obtain ⟨_, _, inside, ⟨rfl, rfl⟩, rfl⟩ := passes
      obtain ⟨rfl, derived⟩ := checkExpr_derives _ same inside
      exact ⟨rfl, .inferred derived⟩
    · simp only [bind_passes, rule_passes, pure_passes, Prod.mk.injEq, resolve_iff] at passes
      obtain ⟨_, _, ⟨rfl, rfl⟩, ⟨rfl, rfl⟩, rfl⟩ := passes
      exact ⟨rfl, .uninitialised _⟩
    · simp only [bind_passes, rule_passes, pure_passes, requireAssignable_iff, Prod.mk.injEq,
        resolve_iff] at passes
      obtain ⟨_, _, ⟨rfl, rfl⟩, _, _, inside, _, _, ⟨assignable, rfl⟩, ⟨rfl, rfl⟩, rfl⟩ := passes
      obtain ⟨rfl, derived⟩ := checkValue_derives same inside assignable
      exact ⟨rfl, .initialised derived⟩
  · rintro ⟨rfl, derived⟩
    unfold checkBinding
    cases derived with
    | uninitialised =>
      simp only [bind_passes, rule_passes, pure_passes, Prod.mk.injEq, resolve_iff]
      exact ⟨_, _, ⟨rfl, rfl⟩, ⟨rfl, trivial⟩, rfl⟩
    | initialised derived =>
      obtain ⟨inside, assignable⟩ := value_passes derived same
      simp only [bind_passes, rule_passes, pure_passes, requireAssignable_iff, Prod.mk.injEq,
        resolve_iff]
      exact ⟨_, _, ⟨rfl, rfl⟩, _, _, inside, (), _, ⟨assignable, rfl⟩, ⟨rfl, rfl⟩, rfl⟩
    | inferred derived =>
      simp only [bind_passes, pure_passes, Prod.mk.injEq]
      exact ⟨_, _, expr_passes derived same, ⟨rfl, rfl⟩, rfl⟩

end Typing

end Blockscript
