import Blockscript.Proofs.Java.Layout

/-!
# Writing a text line by line

What has been written of a text is a cursor: the line that is being written, what is open
before that line, and the line before it. More text moves the cursor. When a line is ended it
has to fit, so a text over which a cursor moves is laid out.

A line is begun behind its indentation and then goes on, and what can be said of it depends on
how it begins: with a closing brace, as a label, or as anything else.
-/

namespace Blockscript.Java

/-- A text that is being written: its last line so far, what is open before that line, and the
line before it. -/
structure Cursor where
  stack : List Enclosure
  previous : Line
  line : Line

namespace Cursor

/-- The line as it is may be ended, and leaves the enclosures open. -/
structure Done (cursor : Cursor) (stack : List Enclosure) : Prop where
  fits : cursor.line.Fits cursor.stack cursor.previous
  leaves : Line.leaves? cursor.stack cursor.line = some stack

/-- More letters of the same line. -/
def write (cursor : Cursor) (letters : List Char) : Cursor :=
  { cursor with line := cursor.line ++ letters }

/-- A text moves the cursor. A line is done when it is ended. -/
inductive Moves : Cursor → List Char → Cursor → Prop where
  | stay {cursor : Cursor} : Moves cursor [] cursor
  | letter {cursor last : Cursor} {letter : Char} {rest : List Char} : letter ≠ '\n' →
    Moves (cursor.write [letter]) rest last → Moves cursor (letter :: rest) last
  | turn {cursor last : Cursor} {stack : List Enclosure} {rest : List Char} :
    cursor.Done stack → Moves ⟨stack, cursor.line, []⟩ rest last →
      Moves cursor ('\n' :: rest) last

variable {cursor middle last : Cursor} {letters more : List Char}

/-- Two texts in order move the cursor one after the other. -/
theorem Moves.trans (first : Moves cursor letters middle) (second : Moves middle more last) :
    Moves cursor (letters ++ more) last := by
  induction first with
  | stay => exact second
  | letter other _ inductionHypothesis => exact .letter other (inductionHypothesis second)
  | turn done _ inductionHypothesis => exact .turn done (inductionHypothesis second)

/-- Letters of one line are written. -/
theorem moves_write (straight : '\n' ∉ letters) : Moves cursor letters (cursor.write letters) := by
  induction letters generalizing cursor with
  | nil =>
    rw [write, List.append_nil]
    exact .stay
  | cons letter letters inductionHypothesis =>
    have apart : cursor.write (letter :: letters) = (cursor.write [letter]).write letters := by
      simp [write]
    rw [apart]
    simp only [List.mem_cons, not_or] at straight
    exact .letter (Ne.symm straight.1) (inductionHypothesis straight.2)

/-! ### Lines that are begun -/

/-- The line as it is may be ended, and has more in it than blanks. -/
structure Open (cursor : Cursor) (stack : List Enclosure) : Prop extends Done cursor stack where
  begun : cursor.line.content ≠ []
  unlabelled : cursor.line.isLabel = false

end Cursor

namespace Line

variable {line : Line} {letters : List Char} {stack : List Enclosure}

/-- More letters are added to the content of a line that is begun. -/
theorem content_append (begun : line.content ≠ []) :
    content (line ++ letters) = line.content ++ letters := by
  unfold content at begun ⊢
  rw [List.dropWhile_append, if_neg (by simpa using begun)]

/-- More letters leave the indentation of a line that is begun. -/
theorem indentation_append (begun : line.content ≠ []) :
    indentation (line ++ letters) = line.indentation := by
  have shorter : (line.takeWhile (· = ' ')).length ≠ line.length := by
    intro same
    have split : line.takeWhile (· = ' ') ++ line.dropWhile (· = ' ') = line :=
      List.takeWhile_append_dropWhile
    have whole := congrArg List.length split
    rw [List.length_append, same] at whole
    exact begun (List.length_eq_zero_iff.mp (by simpa [content] using whole))
  unfold indentation
  rw [List.takeWhile_append, if_neg shorter]

/-- More letters do not change whether a line that is begun closes a brace. -/
theorem closes_append (begun : line.content ≠ []) : closes (line ++ letters) = line.closes := by
  unfold closes
  rw [content_append begun, List.head?_append_of_ne_nil _ begun]

/-- What does not end with a colon is no label. -/
theorem isLabel_eq_false {mark : Char} (last : line.content.getLast? = some mark)
    (other : mark ≠ ':') : line.isLabel = false := by
  simp [isLabel, last, other]

/-- A line that is no label leaves open what its letters leave. -/
theorem leaves?_unlabelled (unlabelled : line.isLabel = false) :
    leaves? stack line = (Mode.code.visible line).foldlM enclose? (line.within stack) := by
  simp [leaves?, unlabelled]

/-- A line of blanks with letters behind them. -/
def indent (blanks : Nat) (letters : List Char) : Line :=
  List.replicate blanks ' ' ++ letters

/-- Blanks in front are no content. -/
theorem content_indent {first : Char} (other : first ≠ ' ') (blanks : Nat) (rest : List Char) :
    content (indent blanks (first :: rest)) = first :: rest := by
  rw [content, indent, List.dropWhile_append_of_pos (by simp),
    List.dropWhile_cons_of_neg (by simpa using other)]

/-- Blanks in front are the indentation. -/
theorem indentation_indent {first : Char} (other : first ≠ ' ') (blanks : Nat) (rest : List Char) :
    indentation (indent blanks (first :: rest)) = blanks := by
  rw [indentation, indent, List.takeWhile_append_of_pos (by simp),
    List.takeWhile_cons_of_neg (by simpa using other), List.append_nil, List.length_replicate]

end Line

namespace Cursor

variable {cursor : Cursor} {stack outer after : List Enclosure} {letters : List Char}
  {previous : Line} {first mark : Char}

/-- A line that is begun goes on. -/
theorem Open.write (opened : cursor.Open stack) (leads : Leads letters stack after)
    (last : letters.getLast? = some mark) (other : mark ≠ ':') :
    (cursor.write letters).Open after := by
  obtain ⟨⟨⟨straight, whole, indented, broken⟩, leaves⟩, begun, unlabelled⟩ := opened
  have longer : Line.content (cursor.line ++ letters) = cursor.line.content ++ letters :=
    Line.content_append begun
  have closes : Line.closes (cursor.line ++ letters) = cursor.line.closes :=
    Line.closes_append begun
  have plain : Line.isLabel (cursor.line ++ letters) = false := by
    refine Line.isLabel_eq_false ?_ other
    rw [longer, List.getLast?_append, last]
    rfl
  have within : Line.within (cursor.line ++ letters) cursor.stack =
      cursor.line.within cursor.stack := by
    rw [Line.within, Line.within, plain, closes, unlabelled]
  refine ⟨⟨⟨?_, ?_, fun _ => ?_, ?_⟩, ?_⟩, ?_, plain⟩
  · intro member
    rcases List.mem_append.mp member with before | here
    · exact straight before
    · exact (leads.straight _ here).2 rfl
  · rw [Cursor.write, Mode.behind_append, whole, leads.whole]
  · rw [Cursor.write, Line.indentation_append begun, closes, within]
    exact indented begun
  · rintro (label | closing)
    · rw [Cursor.write, plain] at label
      cases label
    · exact broken (.inr (closes ▸ closing))
  · rw [Line.leaves?_unlabelled unlabelled] at leaves
    rw [Cursor.write, Line.leaves?_unlabelled plain, within, Mode.visible_append,
      List.foldlM_append, leaves, whole]
    exact leads.nested
  · rw [Cursor.write, longer]
    simp [begun]

/-- A line that is indented by what it stands in. -/
theorem done_indent {blanks : Nat} {rest : List Char} {inside : List Enclosure}
    (other : first ≠ ' ') (leads : Leads (first :: rest) inside after)
    (within : (Line.indent blanks (first :: rest)).within stack = inside)
    (indented : blanks + (if first = '\x7d' then 4 else 0) = 4 * inside.length)
    (broken : (Line.indent blanks (first :: rest)).isLabel ∨ first = '\x7d' →
      stack.head? = some .body → previous.content = "break;".toList) :
    Done ⟨stack, previous, Line.indent blanks (first :: rest)⟩
      (if (Line.indent blanks (first :: rest)).isLabel then .body :: after else after) := by
  have plain : Plain (List.replicate blanks ' ') := by
    intro letter member
    rw [List.eq_of_mem_replicate member]
    decide
  obtain ⟨straight, whole, nested⟩ := (plain.leads inside).append leads
  have closes : (Line.indent blanks (first :: rest)).closes = decide (first = '\x7d') := by
    simp [Line.closes, Line.content_indent other]
  refine ⟨⟨fun member => (straight _ member).2 rfl, whole, fun _ => ?_, ?_⟩, ?_⟩
  · rw [Line.indentation_indent other, closes, within]
    simpa using indented
  · rw [closes]
    simpa using broken
  · rw [Line.leaves?, within, Line.indent, nested]
    rfl

/-- A line that begins with something of an expression or with a word. -/
theorem open_start {rest : List Char} (other : first ≠ ' ') (noClosing : first ≠ '\x7d')
    (leads : Leads (first :: rest) stack after) (last : (first :: rest).getLast? = some mark)
    (noColon : mark ≠ ':') :
    Open ⟨stack, previous, Line.indent (4 * stack.length) (first :: rest)⟩ after := by
  have content := Line.content_indent other (4 * stack.length) rest
  have unlabelled : (Line.indent (4 * stack.length) (first :: rest)).isLabel = false :=
    Line.isLabel_eq_false (by rw [content, last]) noColon
  have within : (Line.indent (4 * stack.length) (first :: rest)).within stack = stack := by
    simp [Line.within, unlabelled, Line.closes, content, noClosing]
  have done : Done ⟨stack, previous, Line.indent (4 * stack.length) (first :: rest)⟩ _ :=
    done_indent other leads within (by simp [noClosing]) (by simp [unlabelled, noClosing])
  rw [unlabelled] at done
  exact ⟨done, by simp [content], unlabelled⟩

/-- Braces may be closed here, or a case may follow: what is open is the braces, or a body in
them that ends with a break. -/
def Ended (stack : List Enclosure) (previous : Line) (outer : List Enclosure) : Prop :=
  stack = .braces :: outer ∨
    stack = .body :: .braces :: outer ∧ previous.content = "break;".toList

/-- Without the body of a case, the braces around it are open. -/
theorem Ended.dropWhile (ended : Ended stack previous outer) :
    stack.dropWhile (· = .body) = .braces :: outer := by
  rcases ended with rfl | ⟨rfl, _⟩ <;> rfl

/-- A body of a case that may be left has a break before it. -/
theorem Ended.broken (ended : Ended stack previous outer) (body : stack.head? = some .body) :
    previous.content = "break;".toList := by
  rcases ended with rfl | ⟨_, broken⟩
  · cases body
  · exact broken

/-- A line that closes braces. -/
theorem open_closing (ended : Ended stack previous outer) :
    Open ⟨stack, previous, Line.indent (4 * outer.length) ['\x7d']⟩ outer := by
  have content := Line.content_indent (by decide : '\x7d' ≠ ' ') (4 * outer.length) []
  have unlabelled : (Line.indent (4 * outer.length) ['\x7d']).isLabel = false :=
    Line.isLabel_eq_false (by rw [content]; rfl) (by decide : '\x7d' ≠ ':')
  have within : (Line.indent (4 * outer.length) ['\x7d']).within stack = .braces :: outer := by
    rw [Line.within, unlabelled, Line.closes, content]
    exact ended.dropWhile
  have done : Done ⟨stack, previous, Line.indent (4 * outer.length) ['\x7d']⟩ _ :=
    done_indent (by decide) (leads_closing outer) within (by simp [Nat.mul_add])
      fun _ => ended.broken
  rw [unlabelled] at done
  exact ⟨done, by simp [content], unlabelled⟩

/-- The label of a case. -/
theorem done_label {rest : List Char} (ended : Ended stack previous outer) (other : first ≠ ' ')
    (noClosing : first ≠ '\x7d')
    (label : "case ".toList <+: first :: rest ∧ (first :: rest).getLast? = some ':' ∨
      first :: rest = "default:".toList)
    (leads : Leads (first :: rest) (.braces :: outer) (.braces :: outer)) :
    Done ⟨stack, previous, Line.indent (4 * (outer.length + 1)) (first :: rest)⟩
      (.body :: .braces :: outer) := by
  have content := Line.content_indent other (4 * (outer.length + 1)) rest
  have labelled : (Line.indent (4 * (outer.length + 1)) (first :: rest)).isLabel = true := by
    rw [Line.isLabel, content]
    rcases label with ⟨begins, last⟩ | same
    · rw [List.isPrefixOf_iff_prefix.mpr begins, last]
      rfl
    · rw [same]
      decide
  have within : (Line.indent (4 * (outer.length + 1)) (first :: rest)).within stack =
      .braces :: outer := by
    rw [Line.within, labelled]
    exact ended.dropWhile
  have done := done_indent other leads within (by simp [noClosing]) fun _ => ended.broken
  rwa [labelled] at done

/-- The cursor on a new line that is indented by what is open. -/
def start (stack : List Enclosure) (previous : Line) : Cursor :=
  ⟨stack, previous, Line.indent (4 * stack.length) []⟩

/-- Letters are written on an indented line. -/
theorem moves_indent (straight : '\n' ∉ letters) (blanks : Nat) :
    Moves ⟨stack, previous, Line.indent blanks []⟩ letters
      ⟨stack, previous, Line.indent blanks letters⟩ := by
  simpa [write, Line.indent] using
    @moves_write ⟨stack, previous, Line.indent blanks []⟩ letters straight

/-- A line that is done is ended, and the next one is indented. -/
theorem Done.turn (done : cursor.Done stack) (depth : Nat) :
    Moves cursor (newLine depth).toList ⟨stack, cursor.line, Line.indent (4 * depth) []⟩ := by
  have straight : '\n' ∉ List.replicate (4 * depth) ' ' := by
    simp
  rw [newLine, String.toList_ofList]
  refine .turn done ?_
  simpa [write, Line.indent] using @moves_write ⟨stack, cursor.line, []⟩ _ straight

/-- A blank line is done. -/
theorem done_blank (stack : List Enclosure) (previous : Line) : Done ⟨stack, previous, []⟩ stack :=
  ⟨⟨by simp, rfl, fun nonempty => absurd rfl nonempty,
    by simp [Line.isLabel, Line.closes, Line.content]⟩, rfl⟩

end Cursor

/-! ## Texts that have been written -/

namespace Cursor

variable {cursor final : Cursor} {text : List Char} {after : List Enclosure}

/-- What a cursor has moved over is laid line by line. -/
theorem Moves.laid (moves : Moves cursor text final) (straight : '\n' ∉ cursor.line)
    (done : final.Done after) :
    Laid cursor.stack cursor.previous ((cursor.line ++ text).splitOn '\n') after := by
  induction moves with
  | stay =>
    rw [List.append_nil, List.splitOn_eq_singleton straight]
    exact .cons done.fits done.leaves .nil
  | letter other _ inductionHypothesis =>
    simpa [write] using inductionHypothesis (by simp [write, straight, other.symm]) done
  | @turn cursor final stack rest ended _ inductionHypothesis =>
    have split : (cursor.line ++ '\n' :: rest).splitOn '\n' =
        cursor.line :: rest.splitOn '\n' := by
      rw [List.splitOn, List.splitOnP_append_cons _ _ (by simp), ← List.splitOn,
        List.splitOn_eq_singleton straight]
      rfl
    rw [split]
    exact .cons ended.fits ended.leaves (inductionHypothesis (by simp) done)

/-- Lines are ended outside of literals. -/
theorem Moves.whole (moves : Moves cursor text final) {front back : List Char}
    (split : text = front ++ '\n' :: back) :
    (Mode.code.behind cursor.line).behind front = .code := by
  induction moves generalizing front with
  | stay => simp at split
  | @letter cursor final letter rest other _ inductionHypothesis =>
    cases front with
    | nil => exact absurd (List.cons.inj split).1 other
    | cons first front =>
      obtain ⟨rfl, further⟩ := List.cons.inj split
      simpa [write, Mode.behind_append, Mode.behind] using inductionHypothesis further
  | @turn cursor final stack rest ended _ inductionHypothesis =>
    cases front with
    | nil => exact ended.fits.whole
    | cons first front =>
      obtain ⟨rfl, further⟩ := List.cons.inj split
      have inside := inductionHypothesis further
      rw [ended.fits.whole]
      exact inside

/-- Nothing but the end of a line ends lines. -/
theorem Moves.straight (moves : Moves cursor text final) (done : final.Done after) :
    '\r' ∉ cursor.line ++ text := by
  induction moves with
  | stay => simpa using done.fits.straight
  | letter _ _ inductionHypothesis => simpa [write] using inductionHypothesis done
  | turn ended _ inductionHypothesis =>
    simpa using ⟨ended.fits.straight, inductionHypothesis done⟩

/-- A text is laid out if a cursor that begins with nothing open moves over it, and can end
there with nothing open. -/
theorem Moves.laidOut (moves : Moves ⟨[], [], []⟩ text final) (done : final.Done []) :
    LaidOut text := by
  have laid : Laid [] [] (text.splitOn '\n') [] := moves.laid (by simp) done
  refine ⟨?_, laid.leaves, ?_, ?_, ?_⟩
  · have matched := laid.matched
    rw [List.intercalate_splitOn] at matched
    exact ⟨fun front within => by simpa using matched.opened front within,
      by simpa using matched.closed.symm⟩
  · intro front line back split nonempty
    obtain ⟨stack, reached, fits⟩ := (split ▸ laid).fits
    refine ⟨stack, reached, ?_⟩
    rw [fits.indented nonempty, length_eq_counts, count_within, Nat.mul_add]
  · intro front previous line back split starts stack reached
    rw [List.append_cons] at split
    obtain ⟨middle, again, fits⟩ := (split ▸ laid).fits
    obtain rfl := Option.some.inj (again.symm.trans reached)
    simpa using fits.broken starts rfl
  · intro front mark back split member
    simp only [List.mem_cons, List.not_mem_nil, or_false] at member
    rcases member with rfl | rfl
    · exact moves.whole split
    · exact absurd (by simp [split]) (moves.straight done)

end Cursor

end Blockscript.Java
