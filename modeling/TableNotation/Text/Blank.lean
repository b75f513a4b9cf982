/-!
# Blank characters and trimmed text

Text is handled as a list of characters.  A character is *blank* when it has
the Unicode property `White_Space`; this is a wider class than the one of
`Char.isWhitespace`, which knows six characters only.

* `isBlank` decides the class, from the table `blankRanges`, and
  `isBlank_of_isWhitespace` says that core's class is a part of it;
* `trimStart`, `trimEnd`, `trim` cut blank characters off the ends.
-/

namespace TableNotation

/-- The characters with the property `White_Space`, as inclusive ranges of
code points. -/
def blankRanges : List (Nat × Nat) :=
  [(0x09, 0x0D), (0x20, 0x20), (0x85, 0x85), (0xA0, 0xA0), (0x1680, 0x1680),
   (0x2000, 0x200A), (0x2028, 0x2029), (0x202F, 0x202F), (0x205F, 0x205F),
   (0x3000, 0x3000)]

/-- Whether a character is white space in the sense of Unicode. -/
def isBlank (c : Char) : Bool :=
  blankRanges.any fun r => r.1 ≤ c.toNat && c.toNat ≤ r.2

/-- Every character that core counts as white space is blank. -/
theorem isBlank_of_isWhitespace {c : Char} (h : c.isWhitespace = true) :
    isBlank c = true := by
  simp only [Char.isWhitespace, Bool.or_eq_true, decide_eq_true_eq] at h
  rcases h with ((rfl | rfl) | rfl) | rfl <;> decide

namespace Text

/-- The text without the blank characters at its start. -/
def trimStart (s : List Char) : List Char :=
  s.dropWhile isBlank

/-- The text without the blank characters at its end. -/
def trimEnd (s : List Char) : List Char :=
  (s.reverse.dropWhile isBlank).reverse

/-- The text without the blank characters at its two ends. -/
def trim (s : List Char) : List Char :=
  trimEnd (trimStart s)

/-- A text is blank when it holds blank characters only. -/
def isBlankText (s : List Char) : Bool :=
  s.all isBlank

end Text
end TableNotation
