import RegexLiteral.Text.Combining
import RegexLiteral.Text.Unassigned

/-!
# Control characters and characters without a visible form

Control characters are the Unicode category Cc. The invisible ones beside them are the separators
other than the blank, the format characters, those that a font may leave out, the combining
characters and the code points without a character.
-/

namespace RegexLiteral.Text

/-- The two blocks of control characters, and the delete character. -/
def isControl (c : Char) : Bool :=
  c.val < 0x20 || (0x7f ≤ c.val && c.val < 0xa0)

/-- The categories Zs, Zl and Zp without the blank. -/
def separatorRanges : Ranges :=
  [(0xa0, 0xa0), (0x1680, 0x1680), (0x2000, 0x200a), (0x2028, 0x2029), (0x202f, 0x202f),
   (0x205f, 0x205f), (0x3000, 0x3000)]

/-- The category Cf. -/
def formatRanges : Ranges :=
  [(0xad, 0xad), (0x600, 0x605), (0x61c, 0x61c), (0x6dd, 0x6dd), (0x70f, 0x70f), (0x890, 0x891),
   (0x8e2, 0x8e2), (0x180e, 0x180e), (0x200b, 0x200f), (0x202a, 0x202e), (0x2060, 0x2064),
   (0x2066, 0x206f), (0xfeff, 0xfeff), (0xfff9, 0xfffb), (0x110bd, 0x110bd), (0x110cd, 0x110cd),
   (0x13430, 0x1343f), (0x1bca0, 0x1bca3), (0x1d173, 0x1d17a), (0xe0001, 0xe0001),
   (0xe0020, 0xe007f)]

/-- The property Default_Ignorable_Code_Point: nothing is drawn for the character. -/
def ignorableRanges : Ranges :=
  [(0xad, 0xad), (0x34f, 0x34f), (0x61c, 0x61c), (0x115f, 0x1160), (0x17b4, 0x17b5),
   (0x180b, 0x180f), (0x200b, 0x200f), (0x202a, 0x202e), (0x2060, 0x206f), (0x3164, 0x3164),
   (0xfe00, 0xfe0f), (0xfeff, 0xfeff), (0xffa0, 0xffa0), (0xfff0, 0xfff8), (0x1bca0, 0x1bca3),
   (0x1d173, 0x1d17a), (0xe0000, 0xe0fff)]

def isIgnorable (c : Char) : Bool := ignorableRanges.has c

/-- Characters that a reader cannot see by themselves, control characters left out. -/
def isInvisible (c : Char) : Bool :=
  separatorRanges.has c || formatRanges.has c || isIgnorable c || isCombining c || isUnassigned c

end RegexLiteral.Text
