/-
# Blank characters

White space is the Unicode property White_Space: twenty-five code points, given
here as ranges. Trimming removes such characters at the two ends of a text and
nothing inside it. Zero-width characters such as U+200B and U+FEFF are not blank.
-/

namespace AgentKit.Text

/-- The code points with the property White_Space, as inclusive ranges in
ascending order. -/
def blankRanges : List (Nat × Nat) :=
  [(0x09, 0x0D), (0x20, 0x20), (0x85, 0x85), (0xA0, 0xA0), (0x1680, 0x1680),
   (0x2000, 0x200A), (0x2028, 0x2029), (0x202F, 0x202F), (0x205F, 0x205F),
   (0x3000, 0x3000)]

/-- Whether a character is white space. -/
def isBlank (c : Char) : Bool :=
  blankRanges.any fun (low, high) => low ≤ c.toNat && c.toNat ≤ high

/-- Remove the white space at the start of a text. -/
def trimStart (cs : List Char) : List Char :=
  cs.dropWhile isBlank

/-- Remove the white space at the end of a text. -/
def trimEnd (cs : List Char) : List Char :=
  (cs.reverse.dropWhile isBlank).reverse

/-- Remove the white space at both ends of a text. -/
def trim (cs : List Char) : List Char :=
  trimEnd (trimStart cs)

/-- `trim` on a string. -/
def trimmed (s : String) : String :=
  String.ofList (trim s.toList)

/-- `trimEnd` on a string. -/
def trimmedEnd (s : String) : String :=
  String.ofList (trimEnd s.toList)

/-- Whether a text has no character other than white space. -/
def isBlankText (s : String) : Bool :=
  s.toList.all isBlank

end AgentKit.Text
