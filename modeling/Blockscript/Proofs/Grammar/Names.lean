import Blockscript.Proofs.Grammar.Written

/-!
# The names that a program declares

Globals, functions, parameters and variables get their names from identifiers. So like the
names in expressions they are names of the language, and have none of the characters that
mean something else in a text.
-/

namespace Blockscript

open TokenKind (IsName)

variable {ν : Notes}

mutual

/-- The names that a statement declares, also in its blocks. -/
def Stmt.names : Stmt ν → List String
  | .declaration _ name _ _ => [name]
  | .conditional _ thenBlock elseBlock => Stmt.namesIn thenBlock ++ Stmt.namesIn elseBlock
  | .switch _ cases => Case.namesIn cases
  | .loop _ body => Stmt.namesIn body
  | .stray _ body => Stmt.namesIn body
  | .expression _ | .assignment _ _ | .returning _ => []

/-- The names that statements declare. -/
def Stmt.namesIn : List (Stmt ν) → List String
  | [] => []
  | first :: rest => first.names ++ Stmt.namesIn rest

/-- The names that the bodies of cases declare. -/
def Case.namesIn : List (Case ν) → List String
  | [] => []
  | .mk _ body :: rest => Stmt.namesIn body ++ Case.namesIn rest

end

/-- The name of a function, its parameters, and the names that its body declares. -/
def FunctionDef.names (definition : FunctionDef ν) : List String :=
  definition.name :: (definition.parameters ++ Stmt.namesIn definition.body)

/-- The names that a program declares. -/
def Program.names (program : Program ν) : List String :=
  program.globals.map GlobalDef.name ++ program.functions.flatMap FunctionDef.names

mutual

/-- Erasing the notes of a statement leaves its names. -/
theorem Stmt.names_erase : ∀ statement : Stmt ν, statement.erase.names = statement.names
  | .expression _ => rfl
  | .declaration _ _ _ _ => rfl
  | .assignment _ _ => rfl
  | .conditional _ thenBlock elseBlock => by
    rw [Stmt.erase, Stmt.names, Stmt.names, Stmt.namesIn_erase thenBlock,
      Stmt.namesIn_erase elseBlock]
  | .switch _ cases => by rw [Stmt.erase, Stmt.names, Stmt.names, Case.namesIn_erase cases]
  | .loop _ body => by rw [Stmt.erase, Stmt.names, Stmt.names, Stmt.namesIn_erase body]
  | .returning _ => rfl
  | .stray _ body => by rw [Stmt.erase, Stmt.names, Stmt.names, Stmt.namesIn_erase body]

/-- Erasing the notes of statements leaves their names. -/
theorem Stmt.namesIn_erase : ∀ statements : List (Stmt ν),
    Stmt.namesIn (Stmt.eraseAll statements) = Stmt.namesIn statements
  | [] => rfl
  | first :: rest => by
    rw [Stmt.eraseAll, Stmt.namesIn, Stmt.namesIn, Stmt.names_erase first,
      Stmt.namesIn_erase rest]

/-- Erasing the notes of cases leaves their names. -/
theorem Case.namesIn_erase : ∀ cases : List (Case ν),
    Case.namesIn (Case.eraseAll cases) = Case.namesIn cases
  | [] => rfl
  | .mk _ body :: rest => by
    rw [Case.eraseAll, Case.namesIn, Case.namesIn, Stmt.namesIn_erase body,
      Case.namesIn_erase rest]

end

/-- The notes on a program have nothing to do with its names. -/
theorem Program.names_erase (program : Program ν) :
    program.erase.names = program.names := by
  have function (definition : FunctionDef ν) : definition.erase.names = definition.names := by
    simp only [FunctionDef.names, FunctionDef.erase, Stmt.namesIn_erase]
  simp only [Program.names, Program.erase, List.map_map, List.flatMap_map, function]
  rfl

namespace Grammar

mutual

/-- The names of a statement are spelled as names are. -/
theorem Phrase.Statement.names : ∀ {segment : List Token} {tree : Stmt .bare},
    Statement segment tree → (∀ token ∈ segment, token.Genuine) →
      ∀ name ∈ tree.names, IsName name.toList
  | _, _, .declaration _ kind _ _ _, genuine => by
    simpa [Stmt.names] using (genuine _ (by simp)).isName kind
  | _, _, .switch _ _ cases _, genuine =>
    cases.names fun token inside => genuine token (by simp [inside])
  | _, _, .conditional _ _ _ body _, genuine => by
    have inner := body.names fun token inside => genuine token (by simp [inside])
    simpa [Stmt.names, Stmt.namesIn] using inner
  | _, _, .alternative _ _ _ body _ other _, genuine => by
    have inner := body.names fun token inside => genuine token (by simp [inside])
    have further := other.names fun token inside => genuine token (by simp [inside])
    exact List.forall_mem_append.mpr ⟨inner, further⟩
  | _, _, .loop _ _ _ body _, genuine =>
    body.names fun token inside => genuine token (by simp [inside])
  | _, _, .returning _ _ _, _ => by simp [Stmt.names]
  | _, _, .expression _ _ _, _ => by simp [Stmt.names]
  | _, _, .assignment _ _ _ _ _ _, _ => by simp [Stmt.names]

/-- The names of a block are spelled as names are. -/
theorem Phrase.Block.names : ∀ {segment : List Token} {trees : List (Stmt .bare)},
    Block segment trees → (∀ token ∈ segment, token.Genuine) →
      ∀ name ∈ Stmt.namesIn trees, IsName name.toList
  | _, _, .empty, _ => by simp [Stmt.namesIn]
  | _, _, .cons first _ others, genuine => by
    have inner := first.names fun token inside => genuine token (by simp [inside])
    have further := others.names fun token inside => genuine token (by simp [inside])
    exact List.forall_mem_append.mpr ⟨inner, further⟩

/-- The names of cases are spelled as names are. -/
theorem Phrase.Cases.names : ∀ {segment : List Token} {trees : List (Case .bare)},
    Cases segment trees → (∀ token ∈ segment, token.Genuine) →
      ∀ name ∈ Case.namesIn trees, IsName name.toList
  | _, _, .labelled _ _ _ body others, genuine => by
    have inner := body.names fun token inside => genuine token (by simp [inside])
    have further := others.names fun token inside => genuine token (by simp [inside])
    exact List.forall_mem_append.mpr ⟨inner, further⟩
  | _, _, .default _ _ body, genuine => by
    have inner := body.names fun token inside => genuine token (by simp [inside])
    simpa [Case.namesIn] using inner
  | _, _, .bareDefault _ body, genuine => by
    have inner := body.names fun token inside => genuine token (by simp [inside])
    simpa [Case.namesIn] using inner

end

/-- The name of a global is spelled as names are. -/
theorem Phrase.Global.isName {segment : List Token} {definition : GlobalDef .bare}
    (phrase : Global segment definition) (genuine : ∀ token ∈ segment, token.Genuine) :
    IsName definition.name.toList := by
  cases phrase with
  | list _ kind _ _ _ _ _ _ => exact (genuine _ (by simp)).isName kind
  | mutable _ kind _ _ _ => exact (genuine _ (by simp)).isName kind
  | immutable _ kind _ _ _ _ => exact (genuine _ (by simp)).isName kind

/-- The name of a parameter is spelled as names are. -/
theorem Phrase.Parameter.isName {segment : List Token} {parameter : String × Option String}
    (phrase : Parameter segment parameter) (genuine : ∀ token ∈ segment, token.Genuine) :
    IsName parameter.1.toList := by
  cases phrase with
  | mk kind _ => exact (genuine _ (by simp)).isName kind

/-- The names of parameters are spelled as names are. -/
theorem Phrase.Parameters.isName {segment : List Token}
    {parameters : List (String × Option String)} (phrase : Parameters segment parameters)
    (genuine : ∀ token ∈ segment, token.Genuine) :
    ∀ parameter ∈ parameters, IsName parameter.1.toList := by
  induction phrase with
  | last only => simpa using only.isName genuine
  | more first _ _ inductionHypothesis =>
    have here := first.isName fun token inside => genuine token (by simp [inside])
    have further := inductionHypothesis fun token inside => genuine token (by simp [inside])
    simpa only [List.forall_mem_cons] using And.intro here further

/-- The names of a parameter list are spelled as names are. -/
theorem Phrase.ParameterList.isName {segment : List Token}
    {parameters : List (String × Option String)} (phrase : ParameterList segment parameters)
    (genuine : ∀ token ∈ segment, token.Genuine) :
    ∀ parameter ∈ parameters, IsName parameter.1.toList := by
  cases phrase with
  | none => simp
  | some parameters => exact parameters.isName genuine

/-- All names of a function are spelled as names are, its own, those of its parameters and those
of its body. -/
theorem Phrase.Function.names {segment : List Token} {definition : FunctionDef .bare}
    (phrase : Function segment definition) (genuine : ∀ token ∈ segment, token.Genuine) :
    ∀ name ∈ definition.names, IsName name.toList := by
  cases phrase with
  | mk _ kind _ parameters _ _ _ body _ =>
    have own := (genuine _ (by simp)).isName kind
    have inside := body.names fun token inside => genuine token (by simp [inside])
    have listed := parameters.isName fun token inside => genuine token (by simp [inside])
    intro name member
    simp only [FunctionDef.names, List.mem_cons, List.mem_append, List.mem_map] at member
    rcases member with rfl | ⟨parameter, among, rfl⟩ | inner
    · exact own
    · exact listed parameter among
    · exact inside name inner

/-- Every name that a program from a text declares is one. -/
theorem program_isName {source : String} {program : Program .bare}
    (parsed : parseProgram source = .ok program) :
    ∀ name ∈ program.names, IsName name.toList := by
  obtain ⟨tokens, genuine, phrase⟩ := parseProgram_genuine parsed
  cases phrase with
  | mk globals functions =>
    have globalsNamed := globals.forall
      (fun phrase genuine => Phrase.Global.isName phrase genuine)
      fun token inside => genuine token (by simp [inside])
    have functionsNamed := functions.forall
      (fun phrase genuine => Phrase.Function.names phrase genuine)
      fun token inside => genuine token (by simp [inside])
    intro name member
    rcases List.mem_append.mp member with inside | inside
    · obtain ⟨definition, among, rfl⟩ := List.mem_map.mp inside
      exact globalsNamed definition among
    · obtain ⟨definition, among, here⟩ := List.mem_flatMap.mp inside
      exact functionsNamed definition among name here

end Grammar

end Blockscript
