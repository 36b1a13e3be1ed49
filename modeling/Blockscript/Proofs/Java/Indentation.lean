import Blockscript.Proofs.Grammar.Names
import Blockscript.Proofs.Java.Emission
import Blockscript.Proofs.Java.Inline
import Blockscript.Proofs.Java.Writing

/-!
# Emitted programs are laid out

The emitter counts its indentation itself, and a new line is written by whoever comes next.
So the parts of a program differ in where they begin and in where they end: a statement
begins on a line that is indented already, a block begins and ends inside of a line, and cases
end in a body that only what follows them ends. What all of them have in common is that they
leave open what they find open.
-/

namespace Blockscript.Java

/-! ## Texts that are written -/

namespace Cursor

/-- The text is written from the cursor on, and then the cursor is as it is wanted. -/
def Writes (cursor : Cursor) (text : String) (wanted : Cursor → Prop) : Prop :=
  ∃ last, cursor.Moves text.toList last ∧ wanted last

/-- The cursor is where braces may be closed or a case may follow. -/
def Resting (outer : List Enclosure) (cursor : Cursor) : Prop :=
  ∃ stack, cursor.Done stack ∧ Ended stack cursor.line outer

variable {cursor : Cursor} {text more : String} {wanted further : Cursor → Prop}
  {stack outer after : List Enclosure} {previous : Line} {mark : Char} {depth : Nat}

/-- Two texts in order are written from one cursor. -/
theorem Writes.append (front : cursor.Writes text wanted)
    (back : ∀ middle, wanted middle → middle.Writes more further) :
    cursor.Writes (text ++ more) further := by
  obtain ⟨middle, moves, reached⟩ := front
  obtain ⟨last, onward, final⟩ := back middle reached
  exact ⟨last, by rw [String.toList_append]; exact moves.trans onward, final⟩

/-- The empty text leaves the cursor as it is. -/
theorem writes_nothing (reached : wanted cursor) : cursor.Writes "" wanted :=
  ⟨cursor, .stay, reached⟩

/-- Letters of one line have no line end among them. -/
theorem notMem_of_leads (leads : Leads text.toList stack after) : '\n' ∉ text.toList :=
  fun member => (leads.straight _ member).1 rfl

/-- A line that is begun goes on. -/
theorem Open.writes (opened : cursor.Open stack) (leads : Leads text.toList stack after)
    (last : text.toList.getLast? = some mark) (noColon : mark ≠ ':') :
    cursor.Writes text (·.Open after) :=
  ⟨_, moves_write (notMem_of_leads leads), opened.write leads last noColon⟩

/-- A line is begun. -/
theorem start_writes (begins : Begins text) (leads : Leads text.toList stack after)
    (last : text.toList.getLast? = some mark) (noColon : mark ≠ ':') :
    (start stack previous).Writes text (·.Open after) := by
  refine ⟨_, moves_indent (notMem_of_leads leads) _, ?_⟩
  obtain ⟨first, rest, same, noBlank, noBrace⟩ := begins
  rw [same] at leads last ⊢
  exact open_start noBlank noBrace leads last noColon

/-- A new line. -/
theorem Done.newLine (done : cursor.Done stack) (height : stack.length = depth)
    (writes : ∀ previous, (start stack previous).Writes text wanted) :
    cursor.Writes (newLine depth ++ text) wanted := by
  subst height
  obtain ⟨last, moves, reached⟩ := writes cursor.line
  exact ⟨last, by rw [String.toList_append]; exact (done.turn stack.length).trans moves, reached⟩

/-- An empty line. -/
theorem Done.emptyLine (done : cursor.Done stack) :
    cursor.Writes (Java.newLine 0) (·.Done stack) :=
  ⟨_, done.turn 0, done_blank stack cursor.line⟩

/-- Behind an opening brace, the brace may be closed at once. -/
theorem Open.resting (opened : cursor.Open (.braces :: outer)) : cursor.Resting outer :=
  ⟨_, opened.toDone, .inl rfl⟩

/-- A line that closes braces. -/
theorem Resting.closes (resting : cursor.Resting outer) (height : outer.length = depth) :
    cursor.Writes (Java.newLine depth ++ "\x7d") (·.Open outer) := by
  obtain ⟨stack, done, ended⟩ := resting
  subst height
  have straight : '\n' ∉ ['\x7d'] := by decide
  refine ⟨_, ?_, open_closing ended⟩
  rw [String.toList_append]
  exact (done.turn outer.length).trans (moves_indent straight _)

/-- The label of a case. -/
theorem Resting.label (resting : cursor.Resting outer) (height : outer.length + 1 = depth)
    (inline : Inline text)
    (label : "case ".toList <+: text.toList ∧ text.toList.getLast? = some ':' ∨
      text.toList = "default:".toList) :
    cursor.Writes (Java.newLine depth ++ text) (·.Done (.body :: .braces :: outer)) := by
  obtain ⟨stack, done, ended⟩ := resting
  subst height
  have leads := inline.calm (.braces :: outer)
  refine ⟨⟨stack, cursor.line, Line.indent (4 * (outer.length + 1)) text.toList⟩, ?_, ?_⟩
  · rw [String.toList_append]
    exact (done.turn _).trans (moves_indent (notMem_of_leads leads) _)
  · obtain ⟨first, rest, same, noBlank, noBrace⟩ := inline.begins
    rw [same] at leads label ⊢
    exact done_label ended noBlank noBrace label leads

/-- The last line of the body of a case. -/
theorem Done.breaks (done : cursor.Done (.body :: .braces :: outer))
    (height : outer.length + 1 = depth) :
    cursor.Writes (Java.newLine (depth + 1) ++ "break;") (·.Resting outer) := by
  have straight : '\n' ∉ "break;".toList := by decide
  have calm : Calm "break;" := calm_word rfl
  refine done.newLine (congrArg (· + 1) height) fun previous => ⟨_, moves_indent straight _, ?_⟩
  have opened : Open ⟨_, previous, Line.indent _ "break;".toList⟩ (.body :: .braces :: outer) :=
    open_start (by decide) (by decide) (calm _) rfl (by decide : ';' ≠ ':')
  exact ⟨_, opened.toDone, .inr ⟨rfl, Line.content_indent (by decide) _ _⟩⟩

/-- The last letter of two texts is that of the second one, if it has any. -/
theorem getLast?_append_word (last : more.toList.getLast? = some mark) :
    (text ++ more).toList.getLast? = some mark := by
  rw [String.toList_append, List.getLast?_append, last]
  rfl

/-- A line that ends with a semicolon. -/
theorem line_writes (inline : Inline text) :
    (start stack previous).Writes (text ++ ";") (·.Open stack) := by
  have line := inline.append (calm_word rfl : Calm ";")
  exact start_writes line.begins (line.calm stack) (getLast?_append_word rfl)
    (by decide : ';' ≠ ':')

/-- The condition before a block. -/
theorem header_writes (word : Inline text) (condition : Calm more) :
    (start stack previous).Writes (text ++ more ++ ") ") (·.Open stack) := by
  have header := (word.append condition).append (calm_word rfl : Calm ") ")
  exact start_writes header.begins (header.calm stack) (getLast?_append_word rfl)
    (by decide : ' ' ≠ ':')

end Cursor

/-! ## Statements -/

/-- The initial value of a definition, or its absence, stands within a line. -/
theorem calm_initialValue {ν : Notes} {value : Option (Expr ν)} {text : String}
    (inline : ∀ tree ∈ value, Inlined tree) (written : initialValue value = .ok text) :
    Calm text := by
  cases value with
  | none =>
    cases written
    exact (calm_word rfl : Calm "")
  | some tree =>
    obtain ⟨valueText, valueWritten, same⟩ := bind_written.mp written
    cases same
    exact (calm_word rfl).append (inline tree rfl valueText valueWritten).calm

/-- A variable with its type and its value. -/
theorem inline_definition {name value : String} (type : Ty) (named : Calm name)
    (valued : Calm value) : Inline (typeName type ++ " " ++ name ++ value) :=
  (((inline_typeName type).append (calm_word rfl)).append named).append valued

/-- The end of a header opens a brace. -/
theorem leads_opened (stack : List Enclosure) : Leads ") \x7b".toList stack (.braces :: stack) :=
  ⟨by simp, rfl, rfl⟩

/-- The label of a case is written on a line of its own, with a value or without one. -/
theorem caseLabel_writes {label : Option (Expr .checked)} {text : String} {depth : Nat}
    {outer : List Enclosure} {cursor : Cursor} (inline : ∀ tree ∈ label, Inlined tree)
    (written : caseLabel label = .ok text) (resting : cursor.Resting outer)
    (height : outer.length + 1 = depth) :
    cursor.Writes (newLine depth ++ text) (·.Done (.body :: .braces :: outer)) := by
  cases label with
  | some value =>
    obtain ⟨valueText, valueWritten, same⟩ := bind_written.mp written
    cases same
    have word : Inline "case " := inline_word rfl rfl
    have line := (word.append (inline value rfl valueText valueWritten).calm).append
      (calm_word rfl : Calm ":")
    refine resting.label height line (.inl ⟨?_, Cursor.getLast?_append_word rfl⟩)
    rw [String.toList_append, String.toList_append, List.append_assoc]
    exact List.prefix_append _ _
  | none =>
    cases written
    have word : Inline "default:" := inline_word rfl rfl
    exact resting.label height word (.inr rfl)

mutual

/-- A statement is written on lines of its own that begin at its depth, and ends with a line
that is no label. -/
theorem statement_writes (depth : Nat) : ∀ (tree : Stmt .checked) {text : String},
    statement depth tree = .ok text → (∀ root ∈ tree.roots, Inlined root) →
      (∀ name ∈ tree.names, Calm name) → ∀ (stack : List Enclosure) (previous : Line),
        stack.length = depth → (Cursor.start stack previous).Writes text (·.Open stack)
  | .expression inner, _, written, inline, _, stack, previous, _ => by
    obtain ⟨innerText, innerWritten, same⟩ := bind_written.mp written
    cases same
    exact Cursor.line_writes (inline inner (by simp [Stmt.roots]) innerText innerWritten)
  | .declaration entry name _ value, _, written, inline, names, stack, previous, _ => by
    obtain ⟨valueText, valueWritten, same⟩ := bind_written.mp written
    cases same
    have valued : Calm valueText :=
      calm_initialValue (fun tree given => inline tree (by simpa [Stmt.roots] using given))
        valueWritten
    exact Cursor.line_writes
      (inline_definition entry.type (names name (by simp [Stmt.names])) valued)
  | .assignment receiver value, _, written, inline, _, stack, previous, _ => by
    obtain ⟨receiverText, receiverWritten, further⟩ := bind_written.mp written
    obtain ⟨valueText, valueWritten, same⟩ := bind_written.mp further
    cases same
    have before := inline receiver (by simp [Stmt.roots]) receiverText receiverWritten
    have behind := inline value (by simp [Stmt.roots]) valueText valueWritten
    exact Cursor.line_writes ((before.append (calm_word rfl)).append behind.calm)
  | .returning value, _, written, inline, _, stack, previous, _ => by
    obtain ⟨valueText, valueWritten, same⟩ := bind_written.mp written
    cases same
    have word : Inline "return " := inline_word rfl rfl
    exact Cursor.line_writes
      (word.append (inline value (by simp [Stmt.roots]) valueText valueWritten).calm)
  | .conditional condition thenBlock elseBlock, _, written, inline, names, stack, previous,
      height => by
    obtain ⟨conditionText, conditionWritten, further⟩ := bind_written.mp written
    obtain ⟨thenText, thenWritten, further⟩ := bind_written.mp further
    obtain ⟨elseText, elseWritten, same⟩ := bind_written.mp further
    cases same
    simp only [Stmt.roots, Stmt.names, List.forall_mem_cons, List.forall_mem_append]
      at inline names
    have word : Inline "if (" := inline_word rfl rfl
    have condition := (inline.1 conditionText conditionWritten).calm
    refine ((Cursor.header_writes word condition).append fun middle opened =>
      block_writes depth thenBlock thenWritten inline.2.1 names.1 opened height).append
        fun middle opened => ?_
    split
    · exact Cursor.writes_nothing opened
    · have between : middle.Writes " else " (·.Open stack) :=
        opened.writes ((calm_word rfl : Calm " else ") stack) rfl (by decide : ' ' ≠ ':')
      exact between.append fun middle opened =>
        block_writes depth elseBlock elseWritten inline.2.2 names.2 opened height
  | .switch subject cases, _, written, inline, names, stack, previous, height => by
    obtain ⟨subjectText, subjectWritten, further⟩ := bind_written.mp written
    obtain ⟨casesText, casesWritten, same⟩ := bind_written.mp further
    cases same
    simp only [Stmt.roots, Stmt.names, List.forall_mem_cons] at inline names
    have word : Inline "switch (" := inline_word rfl rfl
    have header := word.append (inline.1 subjectText subjectWritten).calm
    have opening : (Cursor.start stack previous).Writes
        ("switch (" ++ subjectText ++ ") \x7b") (·.Open (.braces :: stack)) := by
      refine Cursor.start_writes (header.begins.append _) ?_ (Cursor.getLast?_append_word rfl)
        (by decide : '\x7b' ≠ ':')
      rw [String.toList_append]
      exact (header.calm stack).append (leads_opened stack)
    have inside := opening.append fun middle opened =>
      switchCases_writes (depth + 1) cases casesWritten inline.2 names opened.resting
        (congrArg (· + 1) height)
    rw [String.append_assoc]
    exact inside.append fun middle resting => resting.closes height
  | .loop condition body, _, written, inline, names, stack, previous, height => by
    obtain ⟨conditionText, conditionWritten, further⟩ := bind_written.mp written
    obtain ⟨bodyText, bodyWritten, same⟩ := bind_written.mp further
    cases same
    simp only [Stmt.roots, Stmt.names, List.forall_mem_cons] at inline names
    have word : Inline "while (" := inline_word rfl rfl
    have condition := (inline.1 conditionText conditionWritten).calm
    exact (Cursor.header_writes word condition).append fun middle opened =>
      block_writes depth body bodyWritten inline.2 names opened height
  | .stray _ _, _, written, _, _, _, _, _ => by cases written

/-- Statements are written one below the other at their depth. -/
theorem statements_writes (depth : Nat) : ∀ (trees : List (Stmt .checked)) {text : String},
    statements depth trees = .ok text → (∀ root ∈ Stmt.rootsOf trees, Inlined root) →
      (∀ name ∈ Stmt.namesIn trees, Calm name) → ∀ {stack : List Enclosure} {cursor : Cursor},
        cursor.Done stack → stack.length = depth → cursor.Writes text (·.Done stack)
  | [], _, written, _, _, _, _, done, _ => by
    cases written
    exact Cursor.writes_nothing done
  | first :: rest, _, written, inline, names, stack, cursor, done, height => by
    obtain ⟨firstText, firstWritten, further⟩ := bind_written.mp written
    obtain ⟨restText, restWritten, same⟩ := bind_written.mp further
    cases same
    simp only [Stmt.rootsOf, Stmt.namesIn, List.forall_mem_append] at inline names
    have line := done.newLine height fun previous =>
      statement_writes depth first firstWritten inline.1 names.1 stack previous height
    exact line.append fun middle opened =>
      statements_writes depth rest restWritten inline.2 names.2 opened.toDone height

/-- The statements of a block are written below the line that opens it. -/
theorem block_writes (depth : Nat) : ∀ (trees : List (Stmt .checked)) {text : String},
    block depth trees = .ok text → (∀ root ∈ Stmt.rootsOf trees, Inlined root) →
      (∀ name ∈ Stmt.namesIn trees, Calm name) → ∀ {stack : List Enclosure} {cursor : Cursor},
        cursor.Open stack → stack.length = depth → cursor.Writes text (·.Open stack)
  | [], _, written, _, _, stack, _, opened, _ => by
    cases written
    exact opened.writes ((leads_opening stack).append (leads_closing stack)) rfl
      (by decide : '\x7d' ≠ ':')
  | first :: rest, _, written, inline, names, stack, cursor, opened, height => by
    obtain ⟨firstText, firstWritten, further⟩ := bind_written.mp written
    obtain ⟨restText, restWritten, same⟩ := bind_written.mp further
    cases same
    simp only [Stmt.rootsOf, Stmt.namesIn, List.forall_mem_append] at inline names
    have deeper : (Enclosure.braces :: stack).length = depth + 1 := congrArg (· + 1) height
    have opening : cursor.Writes "\x7b" (·.Open (.braces :: stack)) :=
      opened.writes (leads_opening stack) rfl (by decide : '\x7b' ≠ ':')
    have line := opening.append fun middle opened => opened.toDone.newLine deeper fun previous =>
      statement_writes (depth + 1) first firstWritten inline.1 names.1 _ previous deeper
    rw [← String.append_assoc] at line
    have inside := line.append fun middle opened =>
      statements_writes (depth + 1) rest restWritten inline.2 names.2 opened.toDone deeper
    rw [String.append_assoc]
    exact inside.append fun middle done => Cursor.Resting.closes ⟨_, done, .inl rfl⟩ height

/-- Cases are written one below the other, each with its break. -/
theorem switchCases_writes (depth : Nat) : ∀ (trees : List (Case .checked)) {text : String},
    switchCases depth trees = .ok text →
      (∀ root ∈ Case.rootsOf trees, Inlined root) →
      (∀ name ∈ Case.namesIn trees, Calm name) → ∀ {outer : List Enclosure} {cursor : Cursor},
        cursor.Resting outer → outer.length + 1 = depth → cursor.Writes text (·.Resting outer)
  | [], _, written, _, _, _, _, resting, _ => by
    cases written
    exact Cursor.writes_nothing resting
  | .mk label body :: rest, _, written, inline, names, outer, cursor, resting, height => by
    obtain ⟨labelText, labelWritten, further⟩ := bind_written.mp written
    obtain ⟨bodyText, bodyWritten, further⟩ := bind_written.mp further
    obtain ⟨restText, restWritten, same⟩ := bind_written.mp further
    cases same
    simp only [Case.rootsOf, Case.namesIn, List.forall_mem_append] at inline names
    have deeper : (Enclosure.body :: .braces :: outer).length = depth + 1 := congrArg (· + 1) height
    have labelled := caseLabel_writes (by simpa using inline.1.1) labelWritten
      resting height
    have inside := labelled.append fun middle done =>
      statements_writes (depth + 1) body bodyWritten inline.1.2 names.1 done deeper
    have ended := inside.append fun middle done => done.breaks height
    rw [← String.append_assoc] at ended
    exact ended.append fun middle resting =>
      switchCases_writes depth rest restWritten inline.2 names.2 resting height

end

/-! ## Programs -/

section Programs

variable {outer : List Enclosure} {cursor : Cursor}

/-- A global is written on its line. -/
theorem field_writes (definition : GlobalDef .checked) {text : String}
    (written : field definition = .ok text)
    (inline : ∀ tree ∈ definition.value, Inlined tree)
    (named : Calm definition.name) (stack : List Enclosure) (previous : Line) :
    (Cursor.start stack previous).Writes text (·.Open stack) := by
  obtain ⟨valueText, valueWritten, same⟩ := bind_written.mp written
  cases same
  have line := inline_definition definition.entry.type named
    (calm_initialValue inline valueWritten)
  split
  · rw [String.empty_append]
    exact Cursor.line_writes line
  · have word : Inline "final " := inline_word rfl rfl
    have whole := word.append line.calm
    simp only [← String.append_assoc] at whole
    exact Cursor.line_writes whole

/-- Globals are written each on a line of its own. -/
theorem fields_writes (definitions : List (GlobalDef .checked)) {text : String}
    (written : fields definitions = .ok text)
    (inline : ∀ definition ∈ definitions, ∀ tree ∈ definition.value, Inlined tree)
    (named : ∀ definition ∈ definitions, Calm definition.name)
    (done : cursor.Done [.braces]) : cursor.Writes text (·.Done [.braces]) := by
  induction definitions generalizing cursor text with
  | nil =>
    cases written
    exact Cursor.writes_nothing done
  | cons first rest inductionHypothesis =>
    obtain ⟨firstText, firstWritten, further⟩ := bind_written.mp written
    obtain ⟨restText, restWritten, same⟩ := bind_written.mp further
    cases same
    have line := done.newLine rfl (field_writes first firstWritten (inline first (by simp))
      (named first (by simp)) [.braces])
    exact line.append fun middle opened => inductionHypothesis restWritten
      (fun other member => inline other (by simp [member]))
      (fun other member => named other (by simp [member])) opened.toDone

/-- An empty line stands before the globals if there are any. -/
theorem emptyLine_writes (definitions : List (GlobalDef .checked)) (done : cursor.Done [.braces]) :
    cursor.Writes (if definitions.isEmpty then "" else newLine 0) (·.Done [.braces]) := by
  split
  · exact Cursor.writes_nothing done
  · exact done.emptyLine

/-- The method that starts the program is written below an empty line. -/
theorem entryPoint_writes (done : cursor.Done [.braces]) :
    cursor.Writes entryPoint (·.Open [.braces]) := by
  have header (previous : Line) : (Cursor.start [.braces] previous).Writes
      "public static void main(String[] args) \x7b" (·.Open [.braces, .braces]) :=
    Cursor.start_writes ⟨'p', _, rfl, by decide, by decide⟩ ⟨by simp, rfl, rfl⟩ rfl
      (by decide : '\x7b' ≠ ':')
  have exits (previous : Line) : (Cursor.start [.braces, .braces] previous).Writes
      "System.exit(new Main().main());" (·.Open [.braces, .braces]) :=
    Cursor.start_writes ⟨'S', _, rfl, by decide, by decide⟩
      ((calm_word rfl : Calm "System.exit(new Main().main());") _) rfl (by decide : ';' ≠ ':')
  have once : [Enclosure.braces].length = 1 := rfl
  have twice : [Enclosure.braces, Enclosure.braces].length = 2 := rfl
  have opened := done.emptyLine.append fun middle done => done.newLine once header
  have inside := opened.append fun middle opened => opened.toDone.newLine twice exits
  have whole := inside.append fun middle opened => opened.resting.closes once
  simpa only [entryPoint, String.append_assoc] using whole

/-- A list of parameters stands within a line. -/
theorem calm_parameters (signature : Signature) {names : List String}
    (named : ∀ name ∈ names, Calm name) : Calm (parameters signature names) := by
  have each : ∀ text ∈ List.zipWith (fun type name => typeName type ++ " " ++ name)
      signature.parameters names, Calm text := by
    intro text member
    rw [← List.map_uncurry_zip_eq_zipWith] at member
    obtain ⟨⟨type, name⟩, among, rfl⟩ := List.mem_map.mp member
    exact ((inline_typeName type).calm.append (calm_word rfl)).append
      (named name (List.of_mem_zip among).2)
  rw [parameters]
  generalize List.zipWith _ _ _ = texts at each
  induction texts with
  | nil => exact (calm_word rfl : Calm "")
  | cons first rest inductionHypothesis =>
    obtain ⟨here, further⟩ := List.forall_mem_cons.mp each
    cases rest with
    | nil => simpa using here
    | cons second rest =>
      rw [String.intercalate_cons_cons]
      exact (here.append (calm_word rfl)).append (inductionHypothesis further)

/-- A method is written on lines that begin within the braces of its class. -/
theorem method_writes (definition : FunctionDef .checked) {text : String}
    (written : method definition = .ok text)
    (inline : ∀ root ∈ Stmt.rootsOf definition.body, Inlined root)
    (named : ∀ name ∈ definition.names, Calm name) (previous : Line) :
    (Cursor.start [.braces] previous).Writes text (·.Open [.braces]) := by
  obtain ⟨bodyText, bodyWritten, same⟩ := bind_written.mp written
  cases same
  simp only [FunctionDef.names, List.forall_mem_cons, List.forall_mem_append] at named
  have word := (((inline_typeName definition.routine.result).append
    (calm_word rfl : Calm " ")).append named.1).append (calm_word rfl : Calm "(")
  have header : (Cursor.start [.braces] previous).Writes _ _ :=
    Cursor.header_writes word (calm_parameters definition.routine named.2.1)
  exact header.append fun middle opened =>
    block_writes 1 definition.body bodyWritten inline named.2.2 opened rfl

/-- Methods are written one below the other within the braces of their class. -/
theorem methods_writes (definitions : List (FunctionDef .checked)) {text : String}
    (written : methods definitions = .ok text)
    (inline : ∀ definition ∈ definitions, ∀ root ∈ Stmt.rootsOf definition.body,
      Inlined root)
    (named : ∀ definition ∈ definitions, ∀ name ∈ definition.names, Calm name)
    (done : cursor.Done [.braces]) : cursor.Writes text (·.Done [.braces]) := by
  induction definitions generalizing cursor text with
  | nil =>
    cases written
    exact Cursor.writes_nothing done
  | cons first rest inductionHypothesis =>
    obtain ⟨firstText, firstWritten, further⟩ := bind_written.mp written
    obtain ⟨restText, restWritten, same⟩ := bind_written.mp further
    cases same
    have line := done.emptyLine.append fun middle done => done.newLine rfl
      (method_writes first firstWritten (inline first (by simp)) (named first (by simp)))
    rw [← String.append_assoc] at line
    exact line.append fun middle opened => inductionHypothesis restWritten
      (fun other member => inline other (by simp [member]))
      (fun other member => named other (by simp [member])) opened.toDone

/-- The text of a program is laid out, if its expressions stay in their lines and its names
are calm. -/
theorem program_laidOut {tree : Program .checked} {text : String}
    (written : program tree = .ok text) (inline : ∀ root ∈ tree.roots, Inlined root)
    (named : ∀ name ∈ tree.names, Calm name) : LaidOut text.toList := by
  obtain ⟨fieldsText, fieldsWritten, further⟩ := bind_written.mp written
  obtain ⟨methodsText, methodsWritten, same⟩ := bind_written.mp further
  cases same
  simp only [Program.roots, Program.names, List.forall_mem_append, List.forall_mem_flatMap,
    List.forall_mem_map, Option.mem_toList] at inline named
  have header : (Cursor.start [] []).Writes "public class Main \x7b" (·.Open [.braces]) :=
    Cursor.start_writes ⟨'p', _, rfl, by decide, by decide⟩ ⟨by simp, rfl, rfl⟩ rfl
      (by decide : '\x7b' ≠ ':')
  have behindLine := header.append fun middle opened =>
    emptyLine_writes tree.globals opened.toDone
  have behindFields := behindLine.append fun middle done =>
    fields_writes tree.globals fieldsWritten inline.1 named.1 done
  have behindEntry := behindFields.append fun middle done => entryPoint_writes done
  have behindMethods := behindEntry.append fun middle opened =>
    methods_writes tree.functions methodsWritten inline.2 named.2 opened.toDone
  have behindBlank := behindMethods.append fun middle done => done.emptyLine
  have whole := behindBlank.append fun middle done => Cursor.Resting.closes ⟨_, done, .inl rfl⟩ rfl
  rw [← String.append_assoc] at whole
  obtain ⟨last, moves, opened⟩ := whole
  exact moves.laidOut opened.toDone

end Programs

/-- The Java text of an accepted program is there, and is laid out. -/
theorem accepted_laidOut {source : String} {parsed : Program .bare} {tree : Program .checked}
    {checker : Typing.Checker} (reads : parseProgram source = .ok parsed)
    (accepted : Typing.check parsed = .ok (tree, checker)) :
    ∃ text, program tree = .ok text ∧ LaidOut text.toList := by
  obtain ⟨tokens, phrase⟩ := Grammar.parseProgram_derives reads
  have same := Typing.check_erase accepted
  have annotated := (Typing.check_sound phrase accepted).1.annotated
  obtain ⟨text, written⟩ := program_written annotated.placed (accepted_emitted reads accepted)
  refine ⟨text, written, program_laidOut written (fun root member => ?_) fun name member => ?_⟩
  · have spelled : root.erase.Every Grammar.Written := by
      apply Grammar.program_written reads
      rw [← same, Program.roots_erase]
      exact List.mem_map_of_mem member
    exact inline_expression root fun part inside => (spelled part.erase inside.erase).of_erase
  · refine (inline_name (Grammar.program_isName reads name ?_)).calm
    rwa [← same, Program.names_erase]

/-- A text with a switch in which a block is empty, and with braces, quotes and the end of a
line in literals. -/
def nesting : String :=
  "FUN main(): Integer DO SWITCH 1 CASE 1: IF TRUE DO print(\"\\n\x7d\"); ELSE " ++
    "WHILE FALSE DO END END DEFAULT print('\\''); END RETURN 0; END"

/-- The checked program. -/
def nestingTree : Program .checked where
  globals := []
  functions := [⟨"main", [], [], some "Integer", [
    .switch (.literal .integer (.integer 1)) [
      .mk (some (.literal .integer (.integer 1))) [
        .conditional (.literal .boolean (.boolean true)) [
          .expression (.call .nil ⟨[.any], .nil⟩ "print" [.literal .string (.string "\n\x7d")])] [
          .loop (.literal .boolean (.boolean false)) []]],
      .mk none [
        .expression (.call .nil ⟨[.any], .nil⟩ "print" [.literal .character (.character "'")])]],
    .returning (.literal .integer (.integer 0))], ⟨[], .integer⟩⟩]

/-- The program has a Java text, which is laid out. -/
theorem nesting_laidOut : ∃ checker,
    parseProgram nesting = .ok nestingTree.erase ∧
      Typing.check nestingTree.erase = .ok (nestingTree, checker) ∧
      ∃ text, program nestingTree = .ok text ∧ LaidOut text.toList := by
  have reads : parseProgram nesting = .ok nestingTree.erase := by cbv
  obtain ⟨checker, accepted⟩ : ∃ checker,
      Typing.check nestingTree.erase = .ok (nestingTree, checker) :=
    ⟨⟨⟨#[{ parent := none, entries := [],
           functions := [Typing.printSignature, ⟨"main", [], some .integer, none⟩] }]⟩,
      ⟨none, none⟩⟩, by cbv⟩
  exact ⟨checker, reads, accepted, accepted_laidOut reads accepted⟩

end Blockscript.Java
