import NameResolution.Text.Ranges

/-!
# Blank characters

The characters with the Unicode property `White_Space`, and the text left when those at both
ends are taken away. `isBlank_of_isWhitespace` says that every ASCII blank is among them.
-/

namespace NameResolution.Text

/-- The ranges of the Unicode property `White_Space`, ends included. -/
def blankRanges : Ranges :=
  [(0x09, 0x0d), (0x20, 0x20), (0x85, 0x85), (0xa0, 0xa0), (0x1680, 0x1680), (0x2000, 0x200a),
    (0x2028, 0x2029), (0x202f, 0x202f), (0x205f, 0x205f), (0x3000, 0x3000)]

/-- Whether a character is blank. -/
def isBlank (c : Char) : Bool :=
  blankRanges.contains c

/-- The text without the blanks at its two ends. -/
def trim (text : List Char) : List Char :=
  ((text.dropWhile isBlank).reverse.dropWhile isBlank).reverse

/-- Every blank of ASCII is blank. -/
theorem isBlank_of_isWhitespace {c : Char} (h : c.isWhitespace = true) : isBlank c = true := by
  simp only [Char.isWhitespace, Bool.or_eq_true, decide_eq_true_eq] at h
  rcases h with ((rfl | rfl) | rfl) | rfl <;> decide

/-- Trimming makes no text longer. -/
theorem length_trim_le (text : List Char) : (trim text).length ≤ text.length := by
  rw [trim, List.length_reverse]
  refine Nat.le_trans (List.dropWhile_suffix isBlank).length_le ?_
  rw [List.length_reverse]
  exact (List.dropWhile_suffix isBlank).length_le

end NameResolution.Text
