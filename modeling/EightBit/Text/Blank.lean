/-
# EightBit.Text.Blank -- white space, words and trimming

White space is the property of that name in the Unicode Character Database, which is wider than the
ASCII blanks: it has the no-break space and the ideographic space, but not the zero width space,
the byte order mark, or the information separators `U+001C` to `U+001F`.
-/

namespace EightBit.Text

/-- Whether a character is white space. -/
def isBlank (c : Char) : Bool :=
  let n := c.toNat
  (0x09 ≤ n && n ≤ 0x0D) || n == 0x20 || n == 0x85 || n == 0xA0 || n == 0x1680
    || (0x2000 ≤ n && n ≤ 0x200A) || n == 0x2028 || n == 0x2029 || n == 0x202F || n == 0x205F
    || n == 0x3000

/-- The text without the white space it begins with. -/
def trimStart (text : List Char) : List Char :=
  text.dropWhile isBlank

/-- The text without the white space it ends with. -/
def trimEnd (text : List Char) : List Char :=
  (text.reverse.dropWhile isBlank).reverse

/-- The text without the white space around it. -/
def trim (text : List Char) : List Char :=
  trimEnd (trimStart text)

/-- The first longest run of characters that are not white space; empty if there is none. -/
def firstWord (text : List Char) : List Char :=
  (trimStart text).takeWhile (!isBlank ·)

end EightBit.Text
