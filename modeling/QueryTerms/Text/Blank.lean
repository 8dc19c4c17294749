/-!
# White space

The 25 code points that Unicode lists under `White_Space`, and trimming by them.  Operands of a
term, entries of a select list, statements and numbers in text are all read with the surrounding
white space removed, and it is this class that counts there.

**The class.** `isBlank`.

**Trimming.** `trimStart`, `trimEnd`, `trim` on characters; `isBlankText` for text that trims to
nothing.
-/

namespace QueryTerms.Text

/-- The code points of the Unicode property `White_Space`, as closed ranges. -/
def blankRanges : List (Nat × Nat) :=
  [(0x9, 0xd), (0x20, 0x20), (0x85, 0x85), (0xa0, 0xa0), (0x1680, 0x1680), (0x2000, 0x200a),
   (0x2028, 0x2029), (0x202f, 0x202f), (0x205f, 0x205f), (0x3000, 0x3000)]

/-- Whether a code point lies in one of the closed `ranges`. -/
def inRanges (ranges : List (Nat × Nat)) (code : Nat) : Bool :=
  ranges.any fun range => range.1 ≤ code && code ≤ range.2

/-- Whether a character is white space. -/
def isBlank (c : Char) : Bool := inRanges blankRanges c.toNat

/-- The text without its leading white space. -/
def trimStart (text : List Char) : List Char := text.dropWhile isBlank

/-- The text without its trailing white space. -/
def trimEnd (text : List Char) : List Char := (text.reverse.dropWhile isBlank).reverse

/-- The text without the white space at both ends. -/
def trim (text : List Char) : List Char := trimEnd (trimStart text)

/-- Whether the text holds nothing but white space. -/
def isBlankText (text : List Char) : Bool := text.all isBlank

/-- What is trimmed at the end is taken away, nothing else. -/
theorem trimEnd_sublist (text : List Char) : (trimEnd text).Sublist text := by
  have h := (List.dropWhile_sublist (l := text.reverse) isBlank).reverse
  simpa [trimEnd] using h

/-- Trimming takes away, nothing else. -/
theorem trim_sublist (text : List Char) : (trim text).Sublist text :=
  (trimEnd_sublist _).trans (List.dropWhile_sublist isBlank)

/-- A trimmed text is no longer than before. -/
theorem length_trim_le (text : List Char) : (trim text).length ≤ text.length :=
  (trim_sublist text).length_le

end QueryTerms.Text
