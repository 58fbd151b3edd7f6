import TreeSelect.Text.Ranges

/-!
White space: the 25 code points with the Unicode property White_Space.
The zero-width marks U+180E, U+200B, U+2060 and U+FEFF are not among them.
-/

namespace TreeSelect.Text

def blankRanges : List CodeRange := [
  (0x9, 0xD), (0x20, 0x20), (0x85, 0x85), (0xA0, 0xA0), (0x1680, 0x1680),
  (0x2000, 0x200A), (0x2028, 0x2029), (0x202F, 0x202F), (0x205F, 0x205F), (0x3000, 0x3000)
]

def isBlank (c : Char) : Bool := inRanges blankRanges c

end TreeSelect.Text
