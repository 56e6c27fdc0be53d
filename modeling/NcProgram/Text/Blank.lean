namespace NcProgram.Text

/-- Ranges of the blank code points. -/
def blankRanges : List (Nat × Nat) := [
    (0x9, 0xd), (0x1c, 0x20), (0x85, 0x85), (0xa0, 0xa0), (0x1680, 0x1680), (0x2000, 0x200a),
    (0x2028, 0x2029), (0x202f, 0x202f), (0x205f, 0x205f), (0x3000, 0x3000)]

/-- A character that takes up room on a line or ends it, and shows nothing. -/
def isBlank (c : Char) : Bool :=
  blankRanges.any fun r => r.1 ≤ c.toNat && c.toNat ≤ r.2

/-- The text without the blanks at its two ends. -/
def trimChars (cs : List Char) : List Char :=
  ((cs.dropWhile isBlank).reverse.dropWhile isBlank).reverse

def trim (s : String) : String :=
  String.ofList (trimChars s.toList)

/-- The first word of a text that starts with no blank, and what follows the blanks after it. -/
def splitWord (s : String) : String × String :=
  let word := s.toList.takeWhile (!isBlank ·)
  let rest := s.toList.dropWhile (!isBlank ·)
  (String.ofList word, String.ofList (rest.dropWhile isBlank))

end NcProgram.Text
