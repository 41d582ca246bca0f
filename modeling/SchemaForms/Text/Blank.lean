/-!
# Blank characters

The characters that count as white space at the ends of names, identifiers and paths, and the
removal of them. A text that trims to nothing is called blank. Bytes have a smaller set of their
own: only the six white characters of ASCII.
-/

namespace SchemaForms.Text

/-- The white space of the Unicode standard, together with the four information separators
U+001C to U+001F. The zero width space and the byte order mark are not in it. -/
def isBlank (c : Char) : Bool :=
  let n := c.toNat
  (0x09 ≤ n && n ≤ 0x0D) || (0x1C ≤ n && n ≤ 0x20) || n == 0x85 || n == 0xA0 || n == 0x1680 ||
    (0x2000 ≤ n && n ≤ 0x200A) || n == 0x2028 || n == 0x2029 || n == 0x202F || n == 0x205F ||
    n == 0x3000

/-- Remove what satisfies `p` from both ends of a list. -/
def trimWhere {α : Type} (p : α → Bool) (xs : List α) : List α :=
  ((xs.dropWhile p).reverse.dropWhile p).reverse

/-- Remove the blank characters from both ends of a text. -/
def trim (s : String) : String :=
  String.ofList (trimWhere isBlank s.toList)

@[simp] theorem toList_trim (s : String) : (trim s).toList = trimWhere isBlank s.toList := by
  simp [trim]

/-- The white bytes: tab, line feed, vertical tab, form feed, carriage return and space. -/
def isBlankByte (b : UInt8) : Bool :=
  (0x09 ≤ b && b ≤ 0x0D) || b == 0x20

end SchemaForms.Text
