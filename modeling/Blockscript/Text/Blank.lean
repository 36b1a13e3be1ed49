/-!
# Blank characters

The characters that separate tokens: the ASCII white space and separators, and
the white space of the rest of the code space. Zero-width and joining characters
are not blank.
-/

namespace Blockscript.Text

/-- The code points of the blank characters, as inclusive ranges in order. -/
def blankRanges : List (Nat × Nat) :=
  [(0x09, 0x0d), (0x1c, 0x20), (0x85, 0x85), (0xa0, 0xa0), (0x1680, 0x1680),
    (0x2000, 0x200a), (0x2028, 0x2029), (0x202f, 0x202f), (0x205f, 0x205f),
    (0x3000, 0x3000)]

/-- Whether a character is blank. -/
def isBlank (character : Char) : Bool :=
  blankRanges.any fun (first, last) => first ≤ character.toNat && character.toNat ≤ last

end Blockscript.Text
